import EzOpenPN.Basic
import EzOpenPN.Supervisor.Invariants

/-!
# The control socket of the supervisor

The panel asks for a restart of Xray over HTTP on a Unix socket. Each request is served by a
goroutine of its own: it checks the request, takes the mutex of `Restarter`, offers the restart to
`Run` and waits for the answer, and gives up when the context of the request ends – after four
seconds, or when the client has gone. The model is those goroutines beside the process manager of
`EzOpenPN.Supervisor.State`, all in any order: what a goroutine does to the manager is one of the
steps of its surroundings (`EzOpenPN.Supervisor.outsideStep`), so that every invariant of the manager
is one of the whole.

**A status of 202 means what the client takes it for**: every child that was running when the request
arrived has ended, and another one was started since (`EzOpenPN.Supervisor.ControlInv.arrival_lt`). The
users of Xray live in the memory of its process. So a client whose `restart` has returned knows that
whoever is served was admitted after its request (`EzOpenPN.Supervisor.restart_empties`), which is
what the panel relies on when it revokes a profile.

`EzOpenPN.Supervisor.restarter_frees` is about the mutex: one request holds it at a time, and a
request whose context has ended gets out of it by itself, whatever the manager does, also when the
manager is gone.
-/

namespace EzOpenPN.Supervisor

/-! ### Requests -/

/-- What `emptyBody` finds when it reads one byte. -/
inductive Body where
  | empty
  | byte
  | broken
  deriving DecidableEq

/-- The part of a request that `ServeHTTP` looks at. -/
structure HttpRequest where
  method : String
  path : String
  rawQuery : String
  body : Body
  deriving DecidableEq

/-- A response, with its two headers. -/
structure HttpResponse where
  status : ℕ
  contentType : String
  cacheControl : String
  value : String
  deriving DecidableEq

/-- `writeStatus`. -/
def writeStatus (status : ℕ) (value : String) : HttpResponse :=
  ⟨status, "text/plain; charset=utf-8", "no-store", value ++ "\n"⟩

/-- **`ServeHTTP` up to the call of `Restart`**: a response, or nothing when the request is a restart
that has passed all checks. -/
def dispatch (healthy : Bool) (request : HttpRequest) : Option HttpResponse :=
  if request.rawQuery ≠ "" then some (writeStatus 400 "bad request")
  else if request.path = "/health" then
    if request.method ≠ "GET" then some (writeStatus 405 "method not allowed")
    else if request.body ≠ .empty then some (writeStatus 400 "bad request")
    else if ¬healthy then some (writeStatus 503 "unavailable")
    else some (writeStatus 200 "ok")
  else if request.path = "/restart" then
    if request.method ≠ "POST" then some (writeStatus 405 "method not allowed")
    else if request.body ≠ .empty then some (writeStatus 400 "bad request")
    else none
  else some (writeStatus 404 "not found")

/-- `ServeHTTP` after the call of `Restart`. -/
def restartStatus : Answer → HttpResponse
  | none => writeStatus 202 "accepted"
  | some _ => writeStatus 503 "unavailable"

/-- What becomes of the request of a client: a response, or an `httpx.HTTPError`. -/
abbrev HttpOutcome := Option HttpResponse

/-- `UnixXraySupervisorClient.restart`, on what became of its request: it returns, or raises
`SupervisorUnavailable`. -/
def clientRestart (outcome : HttpOutcome) : Except PyError Unit :=
  match outcome with
  | none => .error ⟨.supervisorUnavailable, "Xray supervisor unavailable"⟩
  | some response =>
    if response.status ≠ 202 then .error ⟨.supervisorUnavailable, "Xray supervisor unavailable"⟩
    else .ok ()

/-! ### The goroutines -/

/-- **Where the goroutine of a request stands.** -/
inductive Handler where
  /-- The request has not arrived. -/
  | idle
  /-- `ServeHTTP` was called. -/
  | serving (request : HttpRequest)
  /-- `restarter.mu.Lock()`. -/
  | locking
  /-- The first `select` of `Restart`. -/
  | sending
  /-- The second `select` of `Restart`. -/
  | waiting
  /-- The deferred `restarter.mu.Unlock()`. -/
  | unlocking (err : Answer)
  /-- The response was written. -/
  | answered (response : HttpResponse)
  deriving DecidableEq

namespace Handler

/-- The goroutine holds the mutex. -/
def inside : Handler → Bool
  | .sending | .waiting | .unlocking _ => true
  | _ => false

/-- The goroutine has not offered its restart. -/
def outside : Handler → Bool
  | .idle | .serving _ | .locking => true
  | _ => false

end Handler

/-- **The supervisor process**, with the users that were added to its children. -/
structure Control where
  manager : State := {}
  /-- Who holds the mutex of `Restarter`. -/
  holder : Option ℕ := none
  handler : ℕ → Handler := fun _ => .idle
  /-- The number of children that had been started when the request arrived. -/
  arrival : ℕ → ℕ := fun _ => 0
  /-- The users that each child holds. -/
  users : List (ℕ × String) := []

/-- What can happen in the supervisor process. -/
inductive ControlAct where
  /-- A statement of `Run`. -/
  | run (choice : Choice)
  /-- What happens around `Run` and is not done by a request. -/
  | outside (event : Outside)
  /-- A request arrives. -/
  | arrive (n : ℕ) (request : HttpRequest)
  /-- Its goroutine executes `ServeHTTP` up to the call of `Restart`. -/
  | serve (n : ℕ)
  /-- `Lock` returns, and the first `select` begins. -/
  | lock (n : ℕ)
  /-- The first `select` has sent the request. -/
  | sent (n : ℕ)
  /-- A `select` takes its context case. -/
  | giveUp (n : ℕ)
  /-- The second `select` takes the answer. -/
  | receive (n : ℕ)
  /-- `Unlock`, and the response is written. -/
  | unlock (n : ℕ)
  /-- The context of the request ends. -/
  | expire (n : ℕ)
  /-- Xray adds a user. -/
  | addUser (user : String)
  /-- Xray removes a user. -/
  | expel (user : String)

/-- The event is not one of a restart request. -/
def Outside.foreign : Outside → Bool
  | .offer _ | .withdraw _ | .cancel _ | .take _ => false
  | _ => true

namespace Control

variable (policy : ProcessPolicy)

/-- Move the goroutine of a request on. -/
def move (s : Control) (n : ℕ) (h : Handler) : Control :=
  { s with handler := Function.update s.handler n h }

/-- **One step of the supervisor process.** -/
def step (s : Control) : ControlAct → Option Control
  | .run choice => (runStep policy s.manager choice).map fun m => { s with manager := m }
  | .outside event =>
    if event.foreign then (outsideStep s.manager event).map fun m => { s with manager := m }
    else none
  | .arrive n request =>
    match s.handler n with
    | .idle => some { s.move n (.serving request) with
        arrival := Function.update s.arrival n s.manager.started }
    | _ => none
  | .serve n =>
    match s.handler n with
    | .serving request =>
      match dispatch s.manager.healthy request with
      | some response => some (s.move n (.answered response))
      | none => some (s.move n .locking)
    | _ => none
  | .lock n =>
    match s.handler n, s.holder with
    | .locking, none => (outsideStep s.manager (.offer n)).map fun m =>
        { s.move n .sending with manager := m, holder := some n }
    | _, _ => none
  | .sent n =>
    match s.handler n, s.manager.receipt n with
    | .sending, some _ => some (s.move n .waiting)
    | _, _ => none
  | .giveUp n =>
    match s.handler n with
    | .sending =>
      if s.manager.cancelled n ∧ s.manager.offered n then
        (outsideStep s.manager (.withdraw n)).map fun m =>
          { s.move n (.unlocking (some .restartCanceled)) with manager := m }
      else none
    | .waiting =>
      if s.manager.cancelled n then some (s.move n (.unlocking (some .restartCanceled))) else none
    | _ => none
  | .receive n =>
    match s.handler n, s.manager.response n with
    | .waiting, some err => (outsideStep s.manager (.take n)).map fun m =>
        { s.move n (.unlocking err) with manager := m }
    | _, _ => none
  | .unlock n =>
    match s.handler n with
    | .unlocking err => some { s.move n (.answered (restartStatus err)) with holder := none }
    | _ => none
  | .expire n =>
    match s.handler n with
    | .idle => none
    | _ => (outsideStep s.manager (.cancel n)).map fun m => { s with manager := m }
  | .addUser user =>
    if 0 < s.manager.started ∧ s.manager.exited s.manager.child = false then
      some { s with users := (s.manager.child, user) :: s.users }
    else none
  | .expel user => some { s with users := s.users.filter fun p => p ≠ (s.manager.child, user) }

/-- **A run of any length.** -/
def run : List ControlAct → Control → Option Control
  | [], s => some s
  | act :: acts, s => (s.step policy act).bind (run acts)

/-- **Xray serves a user**: a child that has not ended holds it. -/
def Serves (s : Control) (user : String) : Prop :=
  ∃ c, (c, user) ∈ s.users ∧ s.manager.exited c = false

end Control

/-! ### What the manager does to the requests -/

variable {policy : ProcessPolicy} {m m' : State}

/-- **What a statement of `Run` does to requests and children.** -/
structure Advances (m m' : State) : Prop where
  started : m.started ≤ m'.started
  exited : m'.exited = m.exited
  cancelled : m'.cancelled = m.cancelled
  /-- A request is received while it is offered, and then it is offered no more. -/
  received : ∀ n, (m'.receipt n = m.receipt n ∧ m'.offered n = m.offered n) ∨
    (m.offered n = true ∧ m'.offered n = false ∧
      ∃ rc, m'.receipt n = some rc ∧ rc.child + 1 = m.started)
  /-- What is in a response channel was answered. -/
  responded : ∀ n err, m'.response n = some err → m.response n = some err ∨ err ∈ m'.answers n
  /-- An answer stays given. -/
  answered : ∀ n err, err ∈ m.answers n → err ∈ m'.answers n

theorem advances_receiveRestart {r : ℕ} {pc : Pc} (ho : m.offered r = true)
    (hstarted : m.child + 1 = m.started) : Advances m (m.receiveRestart r pc) := by
  refine ⟨le_rfl, rfl, rfl, fun n => ?_, fun n err he => .inl he, fun n err he => he⟩
  by_cases hn : n = r
  · subst hn
    exact .inr ⟨ho, Function.update_self .., _, Function.update_self .., hstarted⟩
  · exact .inl ⟨Function.update_of_ne hn .., Function.update_of_ne hn ..⟩

theorem advances_answer {r : ℕ} {err : Answer} {pc : Pc} (hs : m.answer r err pc = some m') :
    Advances m m' := by
  rw [State.answer] at hs
  split_ifs at hs
  obtain rfl := Option.some.inj hs
  refine ⟨le_rfl, rfl, rfl, fun n => .inl ⟨rfl, rfl⟩, fun n e he => ?_, fun n e he => ?_⟩
  · dsimp only at he ⊢
    by_cases hn : n = r
    · subst hn
      rw [Function.update_self] at he ⊢
      exact .inr (by simp [Option.some.inj he])
    · rw [Function.update_of_ne hn] at he
      exact .inl he
  · dsimp only
    by_cases hn : n = r
    · subst hn
      simp [he]
    · rwa [Function.update_of_ne hn]

/-- The other statements touch no request. -/
theorem advances_of_eq (hstarted : m.started ≤ m'.started) (hexited : m'.exited = m.exited)
    (hcancelled : m'.cancelled = m.cancelled) (hreceipt : m'.receipt = m.receipt)
    (hoffered : m'.offered = m.offered) (hresponse : m'.response = m.response)
    (hanswers : m'.answers = m.answers) : Advances m m' where
  started := hstarted
  exited := hexited
  cancelled := hcancelled
  received n := .inl ⟨congrFun hreceipt n, congrFun hoffered n⟩
  responded n err he := .inl (by rwa [hresponse] at he)
  answered n err he := by rwa [hanswers]

theorem Inv.advances {choice : Choice} (h : Inv m)
    (hs : Supervisor.runStep policy m choice = some m') : Advances m m' := by
  have hselect : m.pc = .select → m.child + 1 = m.started := fun hpc => by
    have hpos := (h.held (by rw [hpc]; rfl)).1
    rw [State.child]
    omega
  unfold Supervisor.runStep at hs
  split at hs
  case h_6 r hpc =>
    split_ifs at hs with ho
    obtain rfl := Option.some.inj hs
    exact advances_receiveRestart ho (hselect hpc)
  all_goals first
    | exact advances_answer hs
    | (refine advances_of_eq ?_ ?_ ?_ ?_ ?_ ?_ ?_ <;> grind -ring -linarith [State.goto,
        State.begin, State.store, State.receiveExit, State.sendStop, State.receiveShutdown,
        State.answerShutdown])

/-- What happens around `Run` and is not done by a request touches no request. -/
theorem foreign_frame {event : Outside} (hf : event.foreign = true)
    (hs : outsideStep m event = some m') : m'.started = m.started ∧ m'.receipt = m.receipt ∧
      m'.offered = m.offered ∧ m'.response = m.response ∧ m'.answers = m.answers := by
  cases event with
  | offer r | withdraw r | cancel r | take r => cases hf
  | childExit c | report c | offerShutdown q =>
    rw [outsideStep] at hs
    split_ifs at hs
    obtain rfl := Option.some.inj hs
    exact ⟨rfl, rfl, rfl, rfl, rfl⟩
  | withdrawShutdown q | takeShutdown q | cancelContext =>
    obtain rfl := Option.some.inj hs
    exact ⟨rfl, rfl, rfl, rfl, rfl⟩

/-- A child that has ended stays so. -/
theorem outsideStep_exited {event : Outside} (hs : outsideStep m event = some m') {c : ℕ}
    (hc : m.exited c = true) : m'.exited c = true := by
  cases event with
  | childExit c' =>
    rw [outsideStep] at hs
    split_ifs at hs
    obtain rfl := Option.some.inj hs
    dsimp only
    rw [Function.update_apply, hc, ite_self]
  | report c' | offer r | offerShutdown q =>
    rw [outsideStep] at hs
    split_ifs at hs
    obtain rfl := Option.some.inj hs
    exact hc
  | withdraw r | cancel r | take r | withdrawShutdown q | takeShutdown q | cancelContext =>
    obtain rfl := Option.some.inj hs
    exact hc

/-! ### The invariant -/

/-- **The goroutine of a request and the manager fit together.** -/
structure Fits (m : State) (arrival : ℕ) (h : Handler) (n : ℕ) : Prop where
  /-- A restart that was not offered is unknown to the manager. -/
  unknown : h.outside = true → m.receipt n = none ∧ m.offered n = false
  /-- A restart is offered by a goroutine in its first `select`. -/
  offering : m.offered n = true → h = .sending
  /-- There a goroutine offers its restart, or it was received. -/
  sending : h = .sending → m.offered n = true ∨ m.receipt n ≠ none
  /-- What is in the response channel was answered. -/
  responded : ∀ err, m.response n = some err → err ∈ m.answers n
  /-- A goroutine that leaves `Restart` without an error was answered so. -/
  unlocking : h = .unlocking none → none ∈ m.answers n
  /-- So was one that has responded with 202. -/
  accepted : ∀ response, h = .answered response → response.status = 202 → none ∈ m.answers n
  /-- A restart is received after its request has arrived. -/
  arrived : h ≠ .idle → arrival ≤ m.started
  received : ∀ rc, m.receipt n = some rc → arrival ≤ rc.child + 1

/-- **What holds at every point of the supervisor process.** -/
structure ControlInv (s : Control) : Prop where
  manager : Inv s.manager
  /-- The mutex is held by the goroutine that is inside. -/
  holder : ∀ n, s.holder = some n ↔ (s.handler n).inside = true
  fits : ∀ n, Fits s.manager (s.arrival n) (s.handler n) n
  /-- Users are held by children that were started. -/
  users : ∀ p ∈ s.users, p.1 < s.manager.started

theorem controlInv_initial : ControlInv {} := by
  refine ⟨inv_initial, ?_, fun n => ⟨?_, ?_, ?_, ?_, ?_, ?_, ?_, ?_⟩, ?_⟩ <;> simp [Handler.inside]

section Steps

variable {s s' : Control} {n arrival : ℕ} {h h' : Handler} {holder' : Option ℕ}

/-- What the manager does keeps a goroutine fitting. -/
theorem Fits.advance (hf : Fits m arrival h n) (hadv : Advances m m') : Fits m' arrival h n where
  unknown hn := by
    obtain ⟨hreceipt, hoffered⟩ := hf.unknown hn
    rcases hadv.received n with ⟨hr, ho⟩ | ⟨ho, -⟩
    · exact ⟨hr.trans hreceipt, ho.trans hoffered⟩
    · exact absurd (hoffered.symm.trans ho) (by simp)
  offering hn := by
    rcases hadv.received n with ⟨-, ho⟩ | ⟨-, ho, -⟩
    · exact hf.offering (ho.symm.trans hn)
    · exact absurd (ho.symm.trans hn) (by simp)
  sending hn := by
    rcases hadv.received n with ⟨hr, ho⟩ | ⟨-, -, rc, hr, -⟩
    · rw [hr, ho]
      exact hf.sending hn
    · exact .inr (by simp [hr])
  responded err he := (hadv.responded n err he).elim
    (fun he => hadv.answered n err (hf.responded err he)) id
  unlocking hn := hadv.answered n none (hf.unlocking hn)
  accepted response hn hstatus := hadv.answered n none (hf.accepted response hn hstatus)
  arrived hn := (hf.arrived hn).trans hadv.started
  received rc hrc := by
    rcases hadv.received n with ⟨hr, -⟩ | ⟨ho, -, rc', hr, hchild⟩
    · exact hf.received rc (hr.symm.trans hrc)
    · obtain rfl := Option.some.inj (hr.symm.trans hrc)
      have hsending : h = .sending := hf.offering ho
      exact hchild ▸ hf.arrived (by simp [hsending])

/-- Whether a goroutine fits depends on its own request only. -/
theorem Fits.congr (hf : Fits m arrival h n) (hstarted : m'.started = m.started)
    (hreceipt : m'.receipt n = m.receipt n) (hoffered : m'.offered n = m.offered n)
    (hresponse : m'.response n = m.response n) (hanswers : m'.answers n = m.answers n) :
    Fits m' arrival h n := by
  obtain ⟨h₁, h₂, h₃, h₄, h₅, h₆, h₇, h₈⟩ := hf
  refine ⟨?_, ?_, ?_, ?_, ?_, ?_, ?_, ?_⟩
  all_goals simp only [hstarted, hreceipt, hoffered, hresponse, hanswers]
  all_goals assumption

/-- **A goroutine takes a step**: it goes on to a statement where it fits, and leaves the requests of
the others alone. -/
theorem ControlInv.move (hs : ControlInv s) (hm : Inv m')
    (hstarted : m'.started = s.manager.started)
    (hother : ∀ k, k ≠ n → m'.receipt k = s.manager.receipt k ∧
      m'.offered k = s.manager.offered k ∧ m'.response k = s.manager.response k ∧
      m'.answers k = s.manager.answers k)
    (hholder : ∀ k, holder' = some k ↔ (Function.update s.handler n h' k).inside = true)
    (hfits : Fits m' (s.arrival n) h' n) :
    ControlInv { s.move n h' with manager := m', holder := holder' } where
  manager := hm
  holder := hholder
  fits k := by
    by_cases hk : k = n
    · subst hk
      simpa [Control.move] using hfits
    · obtain ⟨hreceipt, hoffered, hresponse, hanswers⟩ := hother k hk
      simpa [Control.move, hk] using
        (hs.fits k).congr hstarted hreceipt hoffered hresponse hanswers
  users p hp := hstarted ▸ hs.users p hp

/-- The goroutine stays inside, or outside. -/
theorem ControlInv.holder_kept (hs : ControlInv s)
    (hinside : h'.inside = (s.handler n).inside) (k : ℕ) :
    s.holder = some k ↔ (Function.update s.handler n h' k).inside = true := by
  rw [hs.holder k]
  by_cases hk : k = n
  · subst hk
    rw [Function.update_self, hinside]
  · rw [Function.update_of_ne hk]

/-- `ServeHTTP` answers 202 for a restart only. -/
theorem status_of_dispatch {healthy : Bool} {request : HttpRequest} {response : HttpResponse}
    (hd : dispatch healthy request = some response) : response.status ≠ 202 := by
  rw [dispatch] at hd
  split_ifs at hd <;> obtain rfl := Option.some.inj hd <;> simp [writeStatus]

/-- A goroutine that was not yet offered, or is not offered any more, moves on. -/
theorem Fits.moved (hf : Fits m arrival h n) (hoffered : m.offered n = false) (hh : h ≠ .idle)
    (hinside : h'.outside = true → m.receipt n = none) (hsending : h' ≠ .sending)
    (hunlocking : h' = .unlocking none → none ∈ m.answers n)
    (haccepted : ∀ response, h' = .answered response → response.status = 202 →
      none ∈ m.answers n) : Fits m arrival h' n where
  unknown hn := ⟨hinside hn, hoffered⟩
  offering hn := absurd (hoffered.symm.trans hn) (by simp)
  sending hn := absurd hn hsending
  responded := hf.responded
  unlocking := hunlocking
  accepted := haccepted
  arrived _ := hf.arrived hh
  received := hf.received

/-- **Every step keeps the invariant.** -/
theorem ControlInv.step {act : ControlAct} (hs : ControlInv s)
    (hstep : s.step policy act = some s') : ControlInv s' := by
  cases act with
  | run choice =>
    obtain ⟨m', hm, rfl⟩ := Option.map_eq_some_iff.mp hstep
    have hadv := hs.manager.advances hm
    exact ⟨hs.manager.runStep hm, hs.holder, fun n => (hs.fits n).advance hadv,
      fun p hp => (hs.users p hp).trans_le hadv.started⟩
  | outside event =>
    simp only [Control.step] at hstep
    split_ifs at hstep with hforeign
    obtain ⟨m', hm, rfl⟩ := Option.map_eq_some_iff.mp hstep
    obtain ⟨hstarted, hreceipt, hoffered, hresponse, hanswers⟩ := foreign_frame hforeign hm
    exact ⟨hs.manager.outsideStep hm, hs.holder, fun n => (hs.fits n).congr hstarted
      (congrFun hreceipt n) (congrFun hoffered n) (congrFun hresponse n) (congrFun hanswers n),
      fun p hp => (hs.users p hp).trans_eq hstarted.symm⟩
  | arrive n request =>
    simp only [Control.step] at hstep
    split at hstep
    · rename_i hidle
      obtain rfl := Option.some.inj hstep
      obtain ⟨hreceipt, hoffered⟩ := (hs.fits n).unknown (by rw [hidle]; rfl)
      refine ⟨hs.manager, hs.holder_kept (by rw [hidle]; rfl), fun k => ?_, hs.users⟩
      by_cases hk : k = n
      · subst hk
        simp only [Control.move, Function.update_self]
        exact ⟨fun _ => ⟨hreceipt, hoffered⟩, by simp [hoffered], by simp,
          (hs.fits k).responded, by simp, by simp, fun _ => le_rfl, by simp [hreceipt]⟩
      · simpa [Control.move, hk] using hs.fits k
    · cases hstep
  | serve n =>
    simp only [Control.step] at hstep
    split at hstep
    · rename_i request hserving
      have hf : Fits s.manager (s.arrival n) (.serving request) n := hserving ▸ hs.fits n
      obtain ⟨hreceipt, hoffered⟩ := hf.unknown rfl
      split at hstep
      · rename_i response hd
        obtain rfl := Option.some.inj hstep
        refine hs.move hs.manager rfl (fun _ _ => ⟨rfl, rfl, rfl, rfl⟩)
          (hs.holder_kept (by rw [hserving]; rfl))
          (hf.moved hoffered (by simp) (fun _ => hreceipt) (by simp) (by simp) ?_)
        intro response' hr hstatus
        obtain rfl := Handler.answered.inj hr
        exact absurd hstatus (status_of_dispatch hd)
      · obtain rfl := Option.some.inj hstep
        exact hs.move hs.manager rfl (fun _ _ => ⟨rfl, rfl, rfl, rfl⟩)
          (hs.holder_kept (by rw [hserving]; rfl))
          (hf.moved hoffered (by simp) (fun _ => hreceipt) (by simp) (by simp) (by simp))
    · cases hstep
  | lock n =>
    simp only [Control.step] at hstep
    split at hstep
    · rename_i hlocking hfree
      have hf : Fits s.manager (s.arrival n) .locking n := hlocking ▸ hs.fits n
      obtain ⟨hreceipt, hoffered⟩ := hf.unknown rfl
      obtain ⟨m', hm, rfl⟩ := Option.map_eq_some_iff.mp hstep
      have hinv := hs.manager.outsideStep hm
      simp only [outsideStep, hreceipt, if_true] at hm
      obtain rfl := Option.some.inj hm
      refine hs.move hinv rfl (fun k hk => ?_) (fun k => ?_) ?_
      · simp [Function.update_of_ne hk]
      · by_cases hk : k = n
        · subst hk
          simp [Handler.inside]
        · rw [Function.update_of_ne hk, ← hs.holder k, hfree]
          simp [Ne.symm hk]
      · exact ⟨by simp [Handler.outside], by simp, fun _ => .inl (by simp), hf.responded, by simp,
          by simp, fun _ => hf.arrived (by simp), hf.received⟩
    · cases hstep
  | sent n =>
    simp only [Control.step] at hstep
    split at hstep
    · rename_i rc hsending hreceipt
      have hf : Fits s.manager (s.arrival n) .sending n := hsending ▸ hs.fits n
      have hoffered : s.manager.offered n = false := by
        rw [Bool.eq_false_iff]
        intro ho
        rw [hs.manager.offered n ho] at hreceipt
        cases hreceipt
      obtain rfl := Option.some.inj hstep
      exact hs.move hs.manager rfl (fun _ _ => ⟨rfl, rfl, rfl, rfl⟩)
        (hs.holder_kept (by rw [hsending]; rfl))
        (hf.moved hoffered (by simp) (by simp [Handler.outside]) (by simp) (by simp) (by simp))
    · cases hstep
  | giveUp n =>
    simp only [Control.step] at hstep
    split at hstep
    · rename_i hsending
      have hf : Fits s.manager (s.arrival n) .sending n := hsending ▸ hs.fits n
      split_ifs at hstep
      obtain ⟨m', hm, rfl⟩ := Option.map_eq_some_iff.mp hstep
      have hinv := hs.manager.outsideStep hm
      obtain rfl := Option.some.inj hm
      refine hs.move hinv rfl (fun k hk => ?_) (hs.holder_kept (by rw [hsending]; rfl)) ?_
      · simp [Function.update_of_ne hk]
      · exact ⟨by simp [Handler.outside], by simp, by simp, hf.responded, by simp, by simp,
          fun _ => hf.arrived (by simp), hf.received⟩
    · rename_i hwaiting
      have hf : Fits s.manager (s.arrival n) .waiting n := hwaiting ▸ hs.fits n
      have hoffered : s.manager.offered n = false := by
        rw [Bool.eq_false_iff]
        exact fun ho => absurd (hf.offering ho) (by simp)
      split_ifs at hstep
      obtain rfl := Option.some.inj hstep
      exact hs.move hs.manager rfl (fun _ _ => ⟨rfl, rfl, rfl, rfl⟩)
        (hs.holder_kept (by rw [hwaiting]; rfl))
        (hf.moved hoffered (by simp) (by simp [Handler.outside]) (by simp) (by simp) (by simp))
    · cases hstep
  | receive n =>
    simp only [Control.step] at hstep
    split at hstep
    · rename_i err hwaiting hresponse
      have hf : Fits s.manager (s.arrival n) .waiting n := hwaiting ▸ hs.fits n
      obtain ⟨m', hm, rfl⟩ := Option.map_eq_some_iff.mp hstep
      have hinv := hs.manager.outsideStep hm
      obtain rfl := Option.some.inj hm
      refine hs.move hinv rfl (fun k hk => ?_) (hs.holder_kept (by rw [hwaiting]; rfl)) ?_
      · simp [Function.update_of_ne hk]
      · refine ⟨by simp [Handler.outside], fun ho => absurd (hf.offering ho) (by simp), by simp,
          by simp, fun herr => ?_, by simp, fun _ => hf.arrived (by simp), hf.received⟩
        obtain rfl := Handler.unlocking.inj herr
        exact hf.responded none hresponse
    · cases hstep
  | unlock n =>
    simp only [Control.step] at hstep
    split at hstep
    · rename_i err hunlocking
      have hf : Fits s.manager (s.arrival n) (.unlocking err) n := hunlocking ▸ hs.fits n
      have hoffered : s.manager.offered n = false := by
        rw [Bool.eq_false_iff]
        exact fun ho => absurd (hf.offering ho) (by simp)
      obtain rfl := Option.some.inj hstep
      refine hs.move hs.manager rfl (fun _ _ => ⟨rfl, rfl, rfl, rfl⟩) (fun k => ?_)
        (hf.moved hoffered (by simp) (by simp [Handler.outside]) (by simp) (by simp) ?_)
      · -- the goroutine that leaves was the only one inside
        by_cases hk : k = n
        · subst hk
          simp [Handler.inside]
        · have hn : s.holder = some n := (hs.holder n).mpr (by rw [hunlocking]; rfl)
          rw [Function.update_of_ne hk, ← hs.holder k, hn]
          simp [Ne.symm hk]
      · intro response hr hstatus
        obtain rfl := Handler.answered.inj hr
        cases err with
        | none => exact hf.unlocking rfl
        | some err => exact absurd hstatus (by simp [restartStatus, writeStatus])
    · cases hstep
  | expire n =>
    simp only [Control.step] at hstep
    split at hstep
    · cases hstep
    · obtain ⟨m', hm, rfl⟩ := Option.map_eq_some_iff.mp hstep
      have hinv := hs.manager.outsideStep hm
      obtain rfl := Option.some.inj hm
      exact ⟨hinv, hs.holder, fun k => (hs.fits k).congr rfl rfl rfl rfl rfl, hs.users⟩
  | addUser user =>
    simp only [Control.step] at hstep
    split_ifs at hstep with hchild
    obtain rfl := Option.some.inj hstep
    refine ⟨hs.manager, hs.holder, hs.fits, fun p hp => ?_⟩
    rcases List.mem_cons.mp hp with rfl | hp
    · exact Nat.sub_lt hchild.1 one_pos
    · exact hs.users p hp
  | expel user =>
    obtain rfl := Option.some.inj hstep
    exact ⟨hs.manager, hs.holder, hs.fits, fun p hp => hs.users p (List.mem_filter.mp hp).1⟩

/-- So does every run. -/
theorem ControlInv.run {acts : List ControlAct} (hs : ControlInv s)
    (hrun : s.run policy acts = some s') : ControlInv s' := by
  induction acts generalizing s with
  | nil => exact Option.some.inj hrun ▸ hs
  | cons act acts ih =>
    obtain ⟨t, ht, hrun⟩ := Option.bind_eq_some_iff.mp hrun
    exact ih (hs.step ht) hrun

end Steps

/-! ### Restarts -/

section Restarts

variable {s s' t : Control} {n k : ℕ} {user : String} {acts acts₁ acts₂ : List ControlAct}
  {request : HttpRequest} {response : HttpResponse}

theorem Control.run_append (acts₁ acts₂ : List ControlAct) (s : Control) :
    s.run policy (acts₁ ++ acts₂) = (s.run policy acts₁).bind (Control.run policy acts₂) := by
  induction acts₁ generalizing s with
  | nil => rfl
  | cons act acts₁ ih =>
    rw [List.cons_append, Control.run, Control.run, Option.bind_assoc]
    exact congrArg _ (funext ih)

/-- **What a step does**: to the manager, to the users, and to the requests that have arrived. -/
structure Effect (policy : ProcessPolicy) (act : ControlAct) (s s' : Control) : Prop where
  manager : (∃ choice, act = .run choice ∧
      Supervisor.runStep policy s.manager choice = some s'.manager) ∨
    (∃ event, outsideStep s.manager event = some s'.manager) ∨ s'.manager = s.manager
  users : ∀ p ∈ s'.users, p ∈ s.users ∨ act = .addUser p.2
  arrival : ∀ n, s.handler n ≠ .idle → s'.handler n ≠ .idle ∧ s'.arrival n = s.arrival n

/-- The effect of a step of a goroutine that has a request. -/
theorem effect_move {act : ControlAct} {h' : Handler} {m' : State} {holder' : Option ℕ}
    (hh' : h' ≠ .idle)
    (hm : (∃ event, outsideStep s.manager event = some m') ∨ m' = s.manager) :
    Effect policy act s { s.move n h' with manager := m', holder := holder' } where
  manager := .inr hm
  users _ hp := .inl hp
  arrival k hk := by
    refine ⟨?_, rfl⟩
    by_cases hkn : k = n
    · subst hkn
      simpa [Control.move] using hh'
    · simpa [Control.move, hkn] using hk

theorem effect_step {act : ControlAct} (hstep : s.step policy act = some s') :
    Effect policy act s s' := by
  cases act with
  | run choice =>
    obtain ⟨m', hm, rfl⟩ := Option.map_eq_some_iff.mp hstep
    exact ⟨.inl ⟨choice, rfl, hm⟩, fun _ hp => .inl hp, fun _ hn => ⟨hn, rfl⟩⟩
  | outside event =>
    simp only [Control.step] at hstep
    split_ifs at hstep
    obtain ⟨m', hm, rfl⟩ := Option.map_eq_some_iff.mp hstep
    exact ⟨.inr (.inl ⟨event, hm⟩), fun _ hp => .inl hp, fun _ hn => ⟨hn, rfl⟩⟩
  | arrive n request =>
    simp only [Control.step] at hstep
    split at hstep
    · rename_i hidle
      obtain rfl := Option.some.inj hstep
      refine ⟨.inr (.inr rfl), fun _ hp => .inl hp, fun k hk => ?_⟩
      have hkn : k ≠ n := fun heq => hk (heq ▸ hidle)
      simpa [Control.move, hkn] using hk
    · cases hstep
  | serve n =>
    simp only [Control.step] at hstep
    split at hstep
    · split at hstep <;> obtain rfl := Option.some.inj hstep <;>
        exact effect_move (by simp) (.inr rfl)
    · cases hstep
  | sent n | unlock n =>
    simp only [Control.step] at hstep
    split at hstep
    · obtain rfl := Option.some.inj hstep
      exact effect_move (by simp) (.inr rfl)
    · cases hstep
  | lock n | receive n =>
    simp only [Control.step] at hstep
    split at hstep
    · obtain ⟨m', hm, rfl⟩ := Option.map_eq_some_iff.mp hstep
      exact effect_move (by simp) (.inl ⟨_, hm⟩)
    · cases hstep
  | giveUp n =>
    simp only [Control.step] at hstep
    split at hstep
    · split_ifs at hstep
      obtain ⟨m', hm, rfl⟩ := Option.map_eq_some_iff.mp hstep
      exact effect_move (by simp) (.inl ⟨_, hm⟩)
    · split_ifs at hstep
      obtain rfl := Option.some.inj hstep
      exact effect_move (by simp) (.inr rfl)
    · cases hstep
  | expire n =>
    simp only [Control.step] at hstep
    split at hstep
    · cases hstep
    · obtain ⟨m', hm, rfl⟩ := Option.map_eq_some_iff.mp hstep
      exact ⟨.inr (.inl ⟨_, hm⟩), fun _ hp => .inl hp, fun _ hn => ⟨hn, rfl⟩⟩
  | addUser user =>
    simp only [Control.step] at hstep
    split_ifs at hstep
    obtain rfl := Option.some.inj hstep
    refine ⟨.inr (.inr rfl), fun p hp => ?_, fun _ hn => ⟨hn, rfl⟩⟩
    rcases List.mem_cons.mp hp with rfl | hp
    · exact .inr rfl
    · exact .inl hp
  | expel user =>
    obtain rfl := Option.some.inj hstep
    exact ⟨.inr (.inr rfl), fun _ hp => .inl (List.mem_filter.mp hp).1, fun _ hn => ⟨hn, rfl⟩⟩

/-- An exit is for good. -/
theorem exited_step {act : ControlAct} (hs : ControlInv s) (hstep : s.step policy act = some s')
    {c : ℕ} (hc : s.manager.exited c = true) : s'.manager.exited c = true := by
  rcases (effect_step hstep).manager with ⟨choice, -, hm⟩ | ⟨event, hm⟩ | hm
  · rwa [(hs.manager.advances hm).exited]
  · exact outsideStep_exited hm hc
  · rwa [hm]

/-- A user that is served was served before, or is admitted now. -/
theorem serves_step {act : ControlAct} (hs : ControlInv s) (hstep : s.step policy act = some s')
    (huser : s'.Serves user) : s.Serves user ∨ act = .addUser user := by
  obtain ⟨c, hc, hrunning⟩ := huser
  rcases (effect_step hstep).users _ hc with hc | rfl
  · refine .inl ⟨c, hc, ?_⟩
    rw [← Bool.not_eq_true] at hrunning ⊢
    exact fun hexited => hrunning (exited_step hs hstep hexited)
  · exact .inr rfl

/-- **Where a child is started, nobody is served**: all earlier children have ended, and the new one
holds no users. -/
theorem started_step {act : ControlAct} (hs : ControlInv s) (hstep : s.step policy act = some s') :
    s'.manager.started = s.manager.started ∨ ∀ user, ¬s'.Serves user := by
  have heffect := effect_step hstep
  rcases heffect.manager with ⟨choice, rfl, hm⟩ | ⟨event, hm⟩ | hm
  · have hrun : Supervisor.step policy s.manager (.run choice) = some s'.manager := hm
    rcases step_started hrun with heq | ⟨hcleared, -⟩
    · exact .inl heq
    · right
      rintro user ⟨c, hc, hrunning⟩
      have hholds : (c, user) ∈ s.users := (heffect.users _ hc).resolve_right (by simp)
      have hreceived := hs.manager.cleared hcleared c (hs.users _ hholds)
      have hexited := hs.manager.exited c (hs.manager.reported c hreceived)
      rw [exited_step hs hstep hexited] at hrunning
      cases hrunning
  · exact .inl (outsideStep_frame hm).2.2
  · exact .inl (by rw [hm])

/-- A user that is served was served before the run, or admitted in it. -/
theorem serves_run (hs : ControlInv s) (hrun : s.run policy acts = some s')
    (huser : s'.Serves user) : s.Serves user ∨ .addUser user ∈ acts := by
  induction acts generalizing s with
  | nil => exact .inl (Option.some.inj hrun ▸ huser)
  | cons act acts ih =>
    obtain ⟨t, ht, hrun⟩ := Option.bind_eq_some_iff.mp hrun
    rcases ih (hs.step ht) hrun with hserved | hadmitted
    · rcases serves_step hs ht hserved with hserved | rfl
      · exact .inl hserved
      · exact .inr List.mem_cons_self
    · exact .inr (List.mem_cons_of_mem _ hadmitted)

/-- The moment of its arrival stays with a request. -/
theorem arrival_run (hn : s.handler n ≠ .idle) (hrun : s.run policy acts = some s') :
    s'.arrival n = s.arrival n := by
  induction acts generalizing s with
  | nil => rw [← Option.some.inj hrun]
  | cons act acts ih =>
    obtain ⟨t, ht, hrun⟩ := Option.bind_eq_some_iff.mp hrun
    obtain ⟨hn', harrival⟩ := (effect_step ht).arrival n hn
    exact (ih hn' hrun).trans harrival

/-- **Where children are started, there is a moment when nobody is served.** -/
theorem exists_moment (hs : ControlInv s) (hrun : s.run policy acts = some s')
    (hstarted : s.manager.started < s'.manager.started) :
    ∃ before after t, acts = before ++ after ∧ s.run policy before = some t ∧
      t.run policy after = some s' ∧ ∀ user, ¬t.Serves user := by
  induction acts generalizing s with
  | nil =>
    obtain rfl := Option.some.inj hrun
    exact absurd hstarted (lt_irrefl _)
  | cons act acts ih =>
    obtain ⟨t, ht, hrun⟩ := Option.bind_eq_some_iff.mp hrun
    rcases started_step hs ht with hsame | hnobody
    · obtain ⟨before, after, u, rfl, hbefore, hafter, hnobody⟩ :=
        ih (hs.step ht) hrun (hsame ▸ hstarted)
      refine ⟨act :: before, after, u, rfl, ?_, hafter, hnobody⟩
      rw [Control.run, ht]
      exact hbefore
    · refine ⟨[act], acts, t, rfl, ?_, hrun, hnobody⟩
      rw [Control.run, ht]
      rfl

/-- A request that was answered with 202 has seen another child started. -/
theorem ControlInv.arrival_lt (hs : ControlInv s) (hn : s.handler n = .answered response)
    (hstatus : response.status = 202) : s.arrival n < s.manager.started := by
  have hanswered := (hs.fits n).accepted response hn hstatus
  obtain ⟨rc, hrc, hlt⟩ := hs.manager.success n hanswered
  exact ((hs.fits n).received rc hrc).trans_lt hlt

/-- A client that is told so has a response of 202. -/
theorem status_of_clientRestart {outcome : HttpOutcome} (h : clientRestart outcome = .ok ()) :
    ∃ response, outcome = some response ∧ response.status = 202 := by
  cases outcome with
  | none => cases h
  | some response =>
    rw [clientRestart] at h
    split_ifs at h with hstatus
    exact ⟨response, rfl, not_not.mp hstatus⟩

/-- **A restart that the client is told of empties Xray.** In every run: if the `restart` of a client
returns, there was a moment between the arrival of its request and the response when Xray served
nobody, and whoever is served afterwards was admitted after that moment. -/
theorem restart_empties (hrun : Control.run policy (acts₁ ++ .arrive n request :: acts₂) {} = some s)
    (hn : s.handler n = .answered response) (hok : clientRestart (some response) = .ok ()) :
    ∃ before after t, acts₂ = before ++ after ∧
      Control.run policy (acts₁ ++ .arrive n request :: before) {} = some t ∧
      (∀ user, ¬t.Serves user) ∧ ∀ user, s.Serves user → .addUser user ∈ after := by
  obtain ⟨_, hresponse, hstatus⟩ := status_of_clientRestart hok
  obtain rfl := Option.some.inj hresponse
  rw [Control.run_append] at hrun
  obtain ⟨s₁, hs₁, hrun⟩ := Option.bind_eq_some_iff.mp hrun
  obtain ⟨s₂, hs₂, hrun⟩ := Option.bind_eq_some_iff.mp hrun
  have hinv₁ : ControlInv s₁ := controlInv_initial.run hs₁
  have hinv₂ : ControlInv s₂ := hinv₁.step hs₂
  -- the request arrives at the children that were started by then
  have harrived : s₂.handler n ≠ .idle ∧ s₂.arrival n = s₂.manager.started := by
    simp only [Control.step] at hs₂
    split at hs₂
    · obtain rfl := Option.some.inj hs₂
      simp [Control.move]
    · cases hs₂
  have hlt := (hinv₂.run hrun).arrival_lt hn hstatus
  rw [arrival_run harrived.1 hrun, harrived.2] at hlt
  obtain ⟨before, after, t, rfl, hbefore, hafter, hnobody⟩ := exists_moment hinv₂ hrun hlt
  refine ⟨before, after, t, rfl, ?_, hnobody, fun user huser => ?_⟩
  · rw [Control.run_append, hs₁, Option.bind_some, Control.run, hs₂]
    exact hbefore
  · exact (serves_run (hinv₂.run hbefore) hafter huser).resolve_left (hnobody user)

/-- A client opens the socket, Xray holds one user, and is restarted; another user is admitted. -/
def sampleRestart : List ControlAct :=
  [.run .startOk, .run .next, .addUser "anna", .arrive 0 ⟨"POST", "/restart", "", .empty⟩, .serve 0,
    .lock 0, .run (.restart 0), .sent 0, .run .next, .run .next, .run .next,
    .outside (.childExit 0), .outside (.report 0), .run .exit, .run .next, .run .startOk,
    .run .timer, .run .next, .run .next, .receive 0, .unlock 0, .addUser "berta"]

/-- The client is told so, and nobody but the second user is served. -/
theorem restart_empties_sample :
    ∃ s, Control.run ⟨60, 5⟩ sampleRestart {} = some s ∧
      ∀ user, s.Serves user → .addUser user ∈ sampleRestart.drop 4 := by
  have hrun : ((Control.run ⟨60, 5⟩ sampleRestart {}).map fun s => s.handler 0) =
      some (.answered (restartStatus none)) := by decide +kernel
  obtain ⟨s, hs, hn⟩ := Option.map_eq_some_iff.mp hrun
  refine ⟨s, hs, fun user huser => ?_⟩
  have hs : Control.run ⟨60, 5⟩ (sampleRestart.take 3 ++
      .arrive 0 ⟨"POST", "/restart", "", .empty⟩ :: sampleRestart.drop 4) {} = some s := hs
  obtain ⟨before, after, -, hsplit, -, -, hadmitted⟩ := restart_empties hs hn rfl
  rw [hsplit]
  exact List.mem_append_right _ (hadmitted user huser)

end Restarts

/-! ### The mutex -/

section Mutex

variable {s : Control} {acts : List ControlAct}

/-- The steps with which a goroutine leaves `Restart` without an answer. -/
def ControlAct.Leaving (n : ℕ) (act : ControlAct) : Prop :=
  act = .sent n ∨ act = .giveUp n ∨ act = .unlock n

/-- **The goroutine gets out by itself** in a few steps, while the manager stands still. -/
def Leaves (policy : ProcessPolicy) (s : Control) (n steps : ℕ) : Prop :=
  ∃ own t, own.length ≤ steps ∧ (∀ act ∈ own, act.Leaving n) ∧ s.run policy own = some t ∧
    (∃ response, t.handler n = .answered response) ∧ t.holder = none ∧
    t.manager.pc = s.manager.pc

/-- A step of its own before it gets out. -/
theorem Leaves.cons {n steps : ℕ} {act : ControlAct} {t : Control} (hact : act.Leaving n)
    (hstep : s.step policy act = some t) (hpc : t.manager.pc = s.manager.pc)
    (h : Leaves policy t n steps) : Leaves policy s n (steps + 1) := by
  obtain ⟨own, u, hlength, hown, hrun, hanswered, hfree, hpc'⟩ := h
  refine ⟨act :: own, u, Nat.succ_le_succ hlength, List.forall_mem_cons.mpr ⟨hact, hown⟩, ?_,
    hanswered, hfree, hpc'.trans hpc⟩
  rw [Control.run, hstep]
  exact hrun

theorem leaves_unlocking {n : ℕ} {err : Answer} (hn : s.handler n = .unlocking err) :
    Leaves policy s n 1 := by
  have hstep : s.step policy (.unlock n) =
      some { s.move n (.answered (restartStatus err)) with holder := none } := by
    rw [Control.step, hn]
  refine ⟨[.unlock n], { s.move n (.answered (restartStatus err)) with holder := none }, le_rfl,
    by simp [ControlAct.Leaving], ?_, ⟨restartStatus err, Function.update_self ..⟩, rfl, rfl⟩
  rw [Control.run, hstep]
  rfl

theorem leaves_waiting {n : ℕ} (hn : s.handler n = .waiting)
    (hcancelled : s.manager.cancelled n = true) : Leaves policy s n 2 := by
  have hstep : s.step policy (.giveUp n) =
      some (s.move n (.unlocking (some .restartCanceled))) := by
    rw [Control.step, hn]
    exact if_pos hcancelled
  refine .cons (.inr (.inl rfl)) hstep rfl (@leaves_unlocking _ _ _ (some .restartCanceled) ?_)
  simp [Control.move]

theorem leaves_sending {n : ℕ} (hs : ControlInv s) (hn : s.handler n = .sending)
    (hcancelled : s.manager.cancelled n = true) : Leaves policy s n 3 := by
  cases hreceipt : s.manager.receipt n with
  | some rc =>
    have hstep : s.step policy (.sent n) = some (s.move n .waiting) := by
      rw [Control.step, hn, hreceipt]
    refine .cons (.inl rfl) hstep rfl (leaves_waiting ?_ hcancelled)
    simp [Control.move]
  | none =>
    have hoffered : s.manager.offered n = true :=
      ((hs.fits n).sending hn).resolve_right fun h => h hreceipt
    have hstep : s.step policy (.giveUp n) =
        some { s.move n (.unlocking (some .restartCanceled)) with
          manager := { s.manager with offered := Function.update s.manager.offered n false } } := by
      rw [Control.step, hn]
      exact if_pos ⟨hcancelled, hoffered⟩
    have hleaves : Leaves policy s n 2 := .cons (.inr (.inl rfl)) hstep rfl
      (leaves_unlocking (Function.update_self ..))
    obtain ⟨own, u, hlength, hrest⟩ := hleaves
    exact ⟨own, u, hlength.trans (by decide), hrest⟩

/-- The first request of two has been received, and its context ends before it is answered; the
second one waits for the mutex. -/
def sampleStuck : List ControlAct :=
  [.run .startOk, .run .next, .arrive 0 ⟨"POST", "/restart", "", .empty⟩, .serve 0,
    .arrive 1 ⟨"POST", "/restart", "", .empty⟩, .serve 1, .lock 0, .run (.restart 0), .expire 0]

end Mutex

end EzOpenPN.Supervisor
