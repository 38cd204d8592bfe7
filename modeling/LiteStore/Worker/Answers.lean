import LiteStore.Lib.Machine
import LiteStore.Store.Exact
import LiteStore.Worker.Process

/-!
# One answer for each request

A request is answered exactly when nothing is raised on its way: the timestamp
arithmetic of its command comes to a value, and if it is a write (`Writes`) its
log append does not raise. Anything raised ends the process, and it answers no
further request (`answered_iff`).
-/

namespace LiteStore
set_option autoImplicit false
open Py

variable {τ : Type} [LinearOrder τ] [Zero τ] [Timestamp τ]
  (m : Type → Type) [PyMonad m] [TimeArith m τ] (str : Dict String String → String)

/-! ## Which requests are logged -/

/-- The request changes data for which the worker keeps a log: a `SET` or `DEL` of the right
arity, or an `EXPIRE` with integer seconds of a key that its expiry pass leaves. -/
def Writes (request : CommandRequest) (s : MemoryStore τ) (clock : Clock τ) : Prop :=
  match request.command, request.args with
  | .SET, [_, _] => True
  | .DEL, [_] => True
  | .EXPIRE, [key, secondsRaw] => (parseTtlSeconds secondsRaw).isSome = true ∧
      ∃ p, PyMonad.outcome (s.processExpirations (m := m) clock none) = .ok p ∧
        p.2.data.contains key = true
  | _, _ => False

/-- Commands that never write. -/
theorem isWrite_other {request : CommandRequest} (set : request.command ≠ .SET)
    (del : request.command ≠ .DEL) (expire : request.command ≠ .EXPIRE) (response : CommandResponse) :
    isWrite request response = false := by
  obtain ⟨command, args, _, _⟩ := request
  cases command <;> simp_all [isWrite, mutates]

omit [Timestamp τ] in
/-- An `EXPIRE` that returns has found the key exactly when its expiry pass leaves the key. -/
theorem expire_returns {s : MemoryStore τ} {clock : Clock τ} {key : String} {seconds : Int}
    {r : Bool × MemoryStore τ}
    (done : PyMonad.outcome (s.expire (m := m) clock key seconds) = .ok r) :
    r.1 = true ↔ ∃ p, PyMonad.outcome (s.processExpirations (m := m) clock none) = .ok p ∧
      p.2.data.contains key = true := by
  rw [MemoryStore.expire, PyMonad.outcome_bind, bind_eq_ok] at done
  obtain ⟨p, passed, done⟩ := done
  simp only [passed, Except.ok.injEq, exists_eq_left']
  cases held : p.2.data.contains key with
  | false =>
    simp only [held, Bool.not_false, if_true, PyMonad.outcome_pure, Except.ok.injEq] at done
    simp [← done]
  | true =>
    simp only [held, Bool.not_true, Bool.false_eq_true, if_false] at done
    split at done
    · rw [PyMonad.outcome_bind, bind_eq_ok] at done
      obtain ⟨_, _, done⟩ := done
      simp only [PyMonad.outcome_pure, Except.ok.injEq] at done
      simp [← done]
    · rw [PyMonad.outcome_bind, bind_eq_ok] at done
      obtain ⟨_, _, done⟩ := done
      rw [PyMonad.outcome_bind, bind_eq_ok] at done
      obtain ⟨_, _, done⟩ := done
      simp only [PyMonad.outcome_pure, Except.ok.injEq] at done
      simp [← done]

/-- **What is logged.** -/
theorem isWrite_iff {request : CommandRequest} {s : MemoryStore τ} {clock : Clock τ}
    {r : CommandResponse × MemoryStore τ}
    (done : PyMonad.outcome (executeCommand (m := m) request s clock) = .ok r) :
    isWrite request r.1 = true ↔ Writes m request s clock := by
  obtain ⟨command, args, requestId, clientId⟩ := request
  cases command
  case SET =>
    rcases args with _ | ⟨key, _ | ⟨value, _ | ⟨more, rest⟩⟩⟩
    case cons.cons.nil =>
      simp only [executeCommand, PyMonad.outcome_bind, bind_eq_ok] at done
      obtain ⟨_, _, done⟩ := done
      simp only [PyMonad.outcome_pure, Except.ok.injEq] at done
      simp [← done, Writes, isWrite, mutates, simpleStringResponse]
    all_goals
      simp only [executeCommand, PyMonad.outcome_pure, Except.ok.injEq] at done
      simp [← done, Writes, isWrite, mutates, wrongArityResponse]
  case DEL =>
    rcases args with _ | ⟨key, _ | ⟨more, rest⟩⟩
    case cons.nil =>
      simp only [executeCommand, PyMonad.outcome_bind, bind_eq_ok] at done
      obtain ⟨_, _, done⟩ := done
      simp only [PyMonad.outcome_pure, Except.ok.injEq] at done
      simp [← done, Writes, isWrite, mutates, integerResponse]
    all_goals
      simp only [executeCommand, PyMonad.outcome_pure, Except.ok.injEq] at done
      simp [← done, Writes, isWrite, mutates, wrongArityResponse]
  case EXPIRE =>
    rcases args with _ | ⟨key, _ | ⟨secondsRaw, _ | ⟨more, rest⟩⟩⟩
    case cons.cons.nil =>
      cases parsed : parseTtlSeconds secondsRaw with
      | none =>
        simp only [executeCommand, parsed, PyMonad.outcome_pure, Except.ok.injEq] at done
        simp [← done, Writes, isWrite, mutates, errorResponse, parsed]
      | some seconds =>
        simp only [executeCommand, parsed, PyMonad.outcome_bind, bind_eq_ok] at done
        obtain ⟨⟨expiredSet, s'⟩, expired, done⟩ := done
        simp only [PyMonad.outcome_pure, Except.ok.injEq] at done
        simp only [Writes, parsed, Option.isSome_some, true_and, ← expire_returns m expired]
        cases expiredSet <;> simp [← done, isWrite, mutates, integerResponse]
    all_goals
      simp only [executeCommand, PyMonad.outcome_pure, Except.ok.injEq] at done
      simp [← done, Writes, isWrite, mutates, wrongArityResponse]
  all_goals
    rw [isWrite_other (by simp) (by simp) (by simp)]
    simp [Writes]

/-- The log after a request: appended to if the request is a write, and that append has not
raised. -/
theorem logWrite_ok_iff {persistence after : Option AofPersistence} {request : CommandRequest}
    {response : CommandResponse} {outcome : LogOutcome} :
    logWrite persistence request response outcome = .ok after ↔
      (∀ log, persistence = some log → isWrite request response = true → ¬ log.Raises request outcome) ∧
        after = persistence.map fun log =>
          if isWrite request response then (log.appended request).2 else log := by
  have same {log log' : Option AofPersistence} :
      (Except.ok log : Except PyError _) = .ok log' ↔ log' = log := by
    rw [Except.ok.injEq, eq_comm]
  cases persistence with
  | none =>
    have run : logWrite none request response outcome = .ok none := rfl
    simp [run, same]
  | some log =>
    cases write : isWrite request response with
    | false =>
      have run : logWrite (some log) request response outcome = .ok (some log) := by
        simp only [logWrite, write]; rfl
      simp [run, same]
    | true =>
      by_cases raises : log.Raises request outcome
      · obtain ⟨text, _, failed⟩ := AofPersistence.appendRequest_raises raises
        have run : logWrite (some log) request response outcome = .error (.osError text) := by
          simp only [logWrite, write, failed, if_true]
        simp [run, raises]
      · have run : logWrite (some log) request response outcome = .ok (some (log.appended request).2) := by
          simp only [logWrite, write, AofPersistence.appendRequest_returns raises, if_true]; rfl
        simp [run, same, raises]

namespace WorkerProcess

/-! ## One iteration -/

variable {w w' : WorkerProcess τ}

/-- What a request that is handled leaves. -/
theorem handleRequest_ok {msg : WorkerRequest} {clock : Clock τ} {append : LogOutcome}
    (done : w.handleRequest m msg clock append = .ok w') :
    ∃ r, PyMonad.outcome (executeCommand (m := m) msg.commandRequest w.store clock) = .ok r ∧
      logWrite w.persistence msg.commandRequest r.1 append = .ok w'.persistence ∧
      w'.store = r.2 ∧ w'.running = w.running ∧ w'.lastExpiration = w.lastExpiration ∧
      w'.logClosed = w.logClosed ∧
      w'.responses = w.responses ++ [workerResponse msg.requestId r.1] := by
  rw [handleRequest] at done
  simp only [bind_eq_ok] at done
  obtain ⟨r, executed, log, logged, done⟩ := done
  cases done
  exact ⟨r, executed, logged, rfl, rfl, rfl, rfl, rfl⟩

/-- **A request is handled** exactly when its command raises nothing, nor does its log append, if it
is a write and there is a log. -/
theorem handleRequest_ok_iff (msg : WorkerRequest) (clock : Clock τ) (append : LogOutcome) :
    (∃ w', w.handleRequest m msg clock append = .ok w') ↔
      Returns (executeCommand (m := m) msg.commandRequest w.store clock) ∧
        ∀ log, w.persistence = some log → Writes m msg.commandRequest w.store clock →
          ¬ log.Raises msg.commandRequest append := by
  constructor
  · rintro ⟨w', done⟩
    obtain ⟨r, executed, logged, _⟩ := handleRequest_ok m done
    refine ⟨⟨r, executed⟩, fun log persists write => ?_⟩
    exact (logWrite_ok_iff.mp logged).1 log persists ((isWrite_iff m executed).mpr write)
  · rintro ⟨⟨r, executed⟩, logged⟩
    have written := logWrite_ok_iff.mpr
      ⟨fun log persists write => logged log persists ((isWrite_iff m executed).mp write), rfl⟩
    rw [handleRequest]
    simp only [bind_eq_ok]
    exact ⟨_, r, executed, _, written, rfl⟩

/-- The periodic pass touches only the store and the time of the last pass. -/
theorem expirePeriodically_ok {event : WorkerEvent τ} (done : w.expirePeriodically m event = .ok w') :
    w'.persistence = w.persistence ∧ w'.running = w.running ∧ w'.responses = w.responses ∧
      w'.logClosed = w.logClosed := by
  rw [expirePeriodically] at done
  split at done
  · obtain ⟨_, _, done⟩ := bind_eq_ok.mp done
    cases done
    exact ⟨rfl, rfl, rfl, rfl⟩
  · cases done
    exact ⟨rfl, rfl, rfl, rfl⟩

/-! ## The loop -/

/-- The requests among the messages of a run. -/
def requestsOf (events : List (WorkerEvent τ)) : List WorkerRequest :=
  events.filterMap fun event =>
    match event.message with
    | some (.request msg) => some msg
    | _ => none

/-- The event brings a request or nothing. -/
def Serves (event : WorkerEvent τ) : Prop :=
  event.message = none ∨ ∃ msg, event.message = some (.request msg)

/-- Nothing is raised in an iteration. -/
def Unfailing (w : WorkerProcess τ) (event : WorkerEvent τ) : Prop :=
  ∃ w', w.handleMessage m str event = .ok w' ∧ ∃ w'', w'.expirePeriodically m event = .ok w''

/-- The worker loop as a machine. -/
def machine : Machine (WorkerStatus τ) (WorkerEvent τ) Unit := ⟨fun s e => ((), step m str s e)⟩

theorem machine_after (s : WorkerStatus τ) (events : List (WorkerEvent τ)) :
    (machine m str).after s events = events.foldl (step m str) s := by
  induction events generalizing s with
  | nil => rfl
  | cons event events ih => exact ih _

/-- The condition on every iteration that the process reaches. -/
def UnfailingRun (status : WorkerStatus τ) (event : WorkerEvent τ) : Prop :=
  ∀ w, status = .running w → Unfailing m str w event

/-- A message that is handled leaves the loop running and adds one answer for a request. -/
theorem handleMessage_ok {event : WorkerEvent τ} (serves : Serves event)
    (done : w.handleMessage m str event = .ok w') :
    w'.running = w.running ∧ w'.logClosed = w.logClosed ∧
      w'.persistence.isSome = w.persistence.isSome ∧
      w'.responses.map WorkerResponse.requestId =
        w.responses.map WorkerResponse.requestId ++ (requestsOf [event]).map WorkerRequest.requestId := by
  rw [handleMessage] at done
  rcases serves with idle | ⟨msg, request⟩
  · simp only [idle] at done
    cases done
    simp [requestsOf, idle]
  · simp only [request] at done
    obtain ⟨r, _, logged, _, running, _, closed, responses⟩ := handleRequest_ok m done
    refine ⟨running, closed, ?_, ?_⟩
    · rw [(logWrite_ok_iff.mp logged).2, Option.isSome_map]
    · simp [responses, requestsOf, request, workerResponse]

theorem handleMessage_ok_iff {event : WorkerEvent τ} (serves : Serves event) :
    (∃ w', w.handleMessage m str event = .ok w') ↔
      ∀ msg, event.message = some (.request msg) →
        Returns (executeCommand (m := m) msg.commandRequest w.store event.clock) ∧
          ∀ log, w.persistence = some log → Writes m msg.commandRequest w.store event.clock →
            ¬ log.Raises msg.commandRequest event.append := by
  rcases serves with idle | ⟨msg, request⟩
  · simp [handleMessage, idle, pure, Except.pure]
  · have same : w.handleMessage m str event = w.handleRequest m msg event.clock event.append := by
      simp only [handleMessage, request]
    rw [same, handleRequest_ok_iff]
    simp [request]

/-- **One iteration** on a request or on nothing goes on, with one more answer for a request,
if nothing fails in it. -/
theorem step_unfailing (running : w.running = true) {event : WorkerEvent τ} (serves : Serves event)
    (fine : Unfailing m str w event) :
    ∃ w', step m str (.running w) event = .running w' ∧ w'.running = true ∧
      w'.logClosed = w.logClosed ∧ w'.persistence.isSome = w.persistence.isSome ∧
      w'.responses.map WorkerResponse.requestId =
        w.responses.map WorkerResponse.requestId ++ (requestsOf [event]).map WorkerRequest.requestId := by
  obtain ⟨w', handled, w'', passed⟩ := fine
  obtain ⟨running', closed, persists, answers⟩ := handleMessage_ok m str serves handled
  obtain ⟨log, running'', responses, closed'⟩ := expirePeriodically_ok m passed
  have alive : w''.running = true := by rw [running'', running', running]
  refine ⟨w'', ?_, alive, closed'.trans closed, ?_, ?_⟩
  · simp only [step, handled, passed, alive, if_true]
  · rw [log, persists]
  · rw [responses, answers]

/-- If something is raised in it, the process is gone. -/
theorem step_failing {event : WorkerEvent τ} (fails : ¬ Unfailing m str w event) :
    ∃ e responses, step m str (.running w) event = .crashed e responses := by
  simp only [step]
  cases handled : w.handleMessage m str event with
  | error e => exact ⟨e, _, rfl⟩
  | ok w' =>
    simp only
    cases passed : w'.expirePeriodically m event with
    | error e => exact ⟨e, _, rfl⟩
    | ok w'' => exact absurd ⟨w', handled, w'', passed⟩ fails

theorem run_crashed (e : PyError) (responses : List WorkerResponse) (events : List (WorkerEvent τ)) :
    (machine m str).after (.crashed e responses) events = .crashed e responses := by
  induction events with
  | nil => rfl
  | cons event events ih => exact ih

omit [LinearOrder τ] [Zero τ] [Timestamp τ] in
theorem requestsOf_cons (event : WorkerEvent τ) (events : List (WorkerEvent τ)) :
    requestsOf (event :: events) = requestsOf [event] ++ requestsOf events := by
  rw [requestsOf, ← List.singleton_append, List.filterMap_append]
  rfl

/-- A run of iterations: either nothing fails and every request is answered, or the process is
gone. -/
theorem run_serves (running : w.running = true) {events : List (WorkerEvent τ)}
    (serves : ∀ event ∈ events, Serves event) :
    ((machine m str).Along (UnfailingRun m str) (.running w) events ∧
      ∃ w', (machine m str).after (.running w) events = .running w' ∧ w'.running = true ∧
        w'.logClosed = w.logClosed ∧ w'.persistence.isSome = w.persistence.isSome ∧
        w'.responses.map WorkerResponse.requestId =
          w.responses.map WorkerResponse.requestId ++
            (requestsOf events).map WorkerRequest.requestId) ∨
    (¬ (machine m str).Along (UnfailingRun m str) (.running w) events ∧
      ∃ e responses, (machine m str).after (.running w) events = .crashed e responses) := by
  induction events generalizing w with
  | nil => exact Or.inl ⟨trivial, w, rfl, running, rfl, rfl, by simp [requestsOf]⟩
  | cons event events ih =>
    have here := serves event (by simp)
    by_cases fine : Unfailing m str w event
    · obtain ⟨w', stepped, running', closed, persists, answers⟩ := step_unfailing m str running here fine
      have now : UnfailingRun m str (.running w) event := by
        intro v same; cases same; exact fine
      have next : ((machine m str).step (.running w) event).2 = .running w' := stepped
      rcases ih running' (fun e member => serves e (by simp [member])) with
        ⟨rest, w'', ran, running'', closed', persists', answers'⟩ | ⟨failed, e, responses, ran⟩
      · refine Or.inl ⟨⟨now, by rw [next]; exact rest⟩, w'', ?_, running'', closed'.trans closed,
          persists'.trans persists, ?_⟩
        · rw [Machine.after_cons, next, ran]
        · rw [answers', answers, requestsOf_cons event events, List.map_append, List.append_assoc]
      · refine Or.inr ⟨fun along => failed ?_, e, responses, ?_⟩
        · have rest := along.2
          rwa [next] at rest
        · rw [Machine.after_cons, next, ran]
    · obtain ⟨e, responses, crashed⟩ := step_failing m str fine
      have next : ((machine m str).step (.running w) event).2 = .crashed e responses := crashed
      refine Or.inr ⟨fun along => fine (along.1 w rfl), e, responses, ?_⟩
      rw [Machine.after_cons, next, run_crashed]

/-! ## Shutdown -/

/-- The message of `shutdown_all`. -/
def shutdownMessage : QueueMessage := .control { action := "shutdown" }

/-- The shutdown is handled exactly when the log's `close` raises nothing. -/
theorem handle_shutdown {last : WorkerEvent τ} (shutdown : last.message = some shutdownMessage)
    {w' : WorkerProcess τ} :
    w.handleMessage m str last = .ok w' ↔ closeLog w.persistence last.append.result = .ok () ∧
      w' = { w with running := false, logClosed := w.persistence.isSome } := by
  simp only [handleMessage, shutdown, shutdownMessage, handleControl, if_true, bind_eq_ok]
  constructor
  · rintro ⟨⟨⟩, closed, done⟩
    cases done
    exact ⟨closed, rfl⟩
  · rintro ⟨closed, rfl⟩
    exact ⟨(), closed, rfl⟩

/-- Every request has one answer, in order and under its id, and the process has closed its
log and ended. -/
def Answered (requests : List WorkerRequest) (status : WorkerStatus τ) : Prop :=
  ∃ w, status = .ended w ∧ w.logClosed = w.persistence.isSome ∧
    w.responses.map WorkerResponse.requestId = requests.map WorkerRequest.requestId

/-- The iteration that shuts the loop down. -/
theorem step_shutdown {last : WorkerEvent τ} (shutdown : last.message = some shutdownMessage)
    {requests : List WorkerRequest}
    (answers : w.responses.map WorkerResponse.requestId = requests.map WorkerRequest.requestId) :
    Answered requests (step m str (.running w) last) ↔ Unfailing m str w last := by
  constructor
  · rintro ⟨v, ended, _⟩
    by_contra fails
    obtain ⟨e, responses, crashed⟩ := step_failing m str fails
    rw [crashed] at ended
    cases ended
  · rintro ⟨w', handled, w'', passed⟩
    obtain ⟨_, rfl⟩ := (handle_shutdown m str shutdown).mp handled
    obtain ⟨log, stopped, responses, closed⟩ := expirePeriodically_ok m passed
    refine ⟨w'', ?_, ?_, ?_⟩
    · simp only [step, handled, passed, stopped, Bool.false_eq_true, if_false]
    · rw [closed, log]
    · rw [responses, answers]

/-- A worker process that is given requests and then shut down answers each of them once, in order and
under its id, closes its log and ends, if and only if nothing is raised in its replay, in an iteration
or in the shutdown. -/
theorem answered_iff (persistence : Option AofPersistence) (clocks : Nat → Clock τ) (now : τ)
    {events : List (WorkerEvent τ)} {last : WorkerEvent τ} (serves : ∀ event ∈ events, Serves event)
    (shutdown : last.message = some shutdownMessage) :
    Answered (requestsOf events) (run m str persistence clocks now (events ++ [last])) ↔
      ∃ w, start m persistence clocks now = .ok w ∧
        (machine m str).Along (UnfailingRun m str) (.running w) (events ++ [last]) := by
  rw [run]
  cases started : start m persistence clocks now with
  | error e =>
    constructor
    · rintro ⟨w, ended, _⟩; cases ended
    · rintro ⟨w, ok, _⟩; cases ok
  | ok w =>
    have fresh : w.running = true ∧ w.responses = [] := by
      rw [start] at started
      obtain ⟨_, _, done⟩ := bind_eq_ok.mp started
      cases done
      exact ⟨rfl, rfl⟩
    simp only [Except.ok.injEq, exists_eq_left', List.foldl_append, ← machine_after, List.foldl_cons,
      List.foldl_nil, Machine.along_append]
    rcases run_serves m str fresh.1 serves with
      ⟨along, w', ran, _, _, _, answers⟩ | ⟨failed, e, responses, ran⟩
    · rw [fresh.2, List.map_nil, List.nil_append] at answers
      rw [ran, step_shutdown m str shutdown answers]
      constructor
      · intro fine
        exact ⟨along, fun v same => by cases same; exact fine, trivial⟩
      · intro both
        exact both.2.1 w' rfl
    · rw [ran]
      constructor
      · rintro ⟨v, ended, _⟩; cases ended
      · rintro ⟨along, _⟩; exact (failed along).elim

/-! ## Exact time -/

section Exact

variable (str : Dict String String → String)

theorem passes_exact (w : WorkerProcess ℚ) (event : WorkerEvent ℚ) :
    ∃ w', w.expirePeriodically Id event = .ok w' := by
  rw [expirePeriodically]
  split <;> exact ⟨_, rfl⟩

/-- In exact time only a log append can fail. -/
theorem handled_exact (w : WorkerProcess ℚ) {event : WorkerEvent ℚ} (serves : Serves event)
    (success : event.append = .done) : ∃ w', w.handleMessage Id str event = .ok w' := by
  apply (handleMessage_ok_iff Id str serves).mpr
  intro msg _
  refine ⟨returns_exact _, fun log _ _ => ?_⟩
  rw [success]
  exact log.not_raises_done _

/-- What the handling of a message leaves of the store and the log, if nothing fails. -/
def handled (w : WorkerProcess ℚ) (event : WorkerEvent ℚ) :
    MemoryStore ℚ × Option AofPersistence :=
  match event.message with
  | some (.request msg) =>
    let r := Id.run (executeCommand msg.commandRequest w.store event.clock)
    (r.2, w.persistence.map fun log =>
      if isWrite msg.commandRequest r.1 then (log.appended msg.commandRequest).2 else log)
  | _ => (w.store, w.persistence)

/-- An iteration in exact time whose log append succeeds. -/
theorem step_exact {w : WorkerProcess ℚ} (running : w.running = true) {event : WorkerEvent ℚ}
    (serves : Serves event) (success : event.append = .done) :
    ∃ w', step Id str (.running w) event = .running w' ∧ w'.running = true ∧
      w'.persistence = (w.handled event).2 ∧
      (w'.store = (w.handled event).1 ∨
        w'.store = (w.handled event).1.pass (event.passClock 0)) := by
  obtain ⟨w', message⟩ := handled_exact str w serves success
  obtain ⟨w'', passed⟩ := passes_exact w' event
  obtain ⟨running', _, _, _⟩ := handleMessage_ok Id str serves message
  obtain ⟨log, running'', _, _⟩ := expirePeriodically_ok Id passed
  have alive : w''.running = true := by rw [running'', running', running]
  have after : w'.store = (w.handled event).1 ∧ w'.persistence = (w.handled event).2 := by
    rw [handleMessage] at message
    rcases serves with idle | ⟨msg, request⟩
    · simp only [idle] at message
      cases message
      exact ⟨by rw [handled, idle], by rw [handled, idle]⟩
    · simp only [request] at message
      obtain ⟨r, executed, logged, store, _⟩ := handleRequest_ok Id message
      have same : Id.run (executeCommand msg.commandRequest w.store event.clock) = r :=
        Except.ok.inj executed
      have written := (logWrite_ok_iff.mp logged).2
      exact ⟨by simp only [handled, request, same, store],
        by simp only [handled, request, same, written]⟩
  refine ⟨w'', ?_, alive, log.trans after.2, ?_⟩
  · simp only [step, message, passed, alive, if_true]
  · rw [← after.1]
    rw [expirePeriodically] at passed
    split at passed
    · right
      cases passed
      rfl
    · left
      cases passed
      rfl

end Exact

/-- An iteration at a clock that stands still. -/
def eventAt (t : ℚ) (message : Option QueueMessage) (append : LogOutcome) : WorkerEvent ℚ :=
  ⟨message, Clock.still t, append, t, Clock.still t⟩

end WorkerProcess
end LiteStore
