import LiteStore.Commands.Answers
import LiteStore.Commands.Exact
import LiteStore.Worker.Answers
import LiteStore.Worker.Pool

/-!
# The process boundary

A response crosses from the worker to the caller in a `WorkerResponse`, which has
no field for `values`. So it arrives whole exactly when it carries none: a
response of `MGET` or of a `KEYS` that finds a key arrives empty.
-/

namespace LiteStore
set_option autoImplicit false
open Py MemoryStore

/-- A response arrives as it was sent, without its `values`. -/
theorem commandResponse_workerResponse {requestId : String} {response : CommandResponse}
    (id : response.requestId = some requestId) :
    commandResponse (workerResponse requestId response) = { response with values := [] } := by
  rw [commandResponse, workerResponse, ← id]

/-- The worker sees the request as it was sent, if it has an id. -/
theorem workerRequest_commandRequest {request : CommandRequest} {requestId : String}
    (id : request.requestId = some requestId) (nonempty : requestId ≠ "") (uuid : String) :
    (workerRequest request uuid).requestId = requestId ∧
      (workerRequest request uuid).commandRequest = request := by
  obtain ⟨command, args, i, clientId⟩ := request
  cases id
  have same : requestIdOr ⟨command, args, some requestId, clientId⟩ uuid = requestId := by
    unfold requestIdOr
    split <;> simp_all
  exact ⟨same, by rw [workerRequest, WorkerRequest.commandRequest, same]⟩

/-- Every response has the id of its request. -/
theorem executeCommand_requestId (request : CommandRequest) (s : MemoryStore ℚ) (clock : Clock ℚ) :
    (Id.run (executeCommand request s clock)).1.requestId = request.requestId :=
  (executeCommand_harmless (m := Id) rfl).1.requestId_eq

/-- The request asks for a list and there is something on it: an `MGET` of keys, or a `KEYS`
whose pattern matches a held key that its expiry pass does not remove. -/
def Lists (request : CommandRequest) (s : MemoryStore ℚ) (clock : Clock ℚ) : Prop :=
  match request.command with
  | .MGET => request.args ≠ []
  | .KEYS => request.args.length ≤ 1 ∧ ∃ k v, s.data.get? k = some v ∧ ¬ s.Due (clock 0) k ∧
      fnmatch k (request.args.headD "*") = true
  | _ => False

/-- **Which responses carry values.** -/
theorem executeCommand_values {s : MemoryStore ℚ} (h : s.Valid) (request : CommandRequest)
    (clock : Clock ℚ) :
    (Id.run (executeCommand request s clock)).1.values = [] ↔ ¬ Lists request s clock := by
  obtain ⟨command, args, i, j⟩ := request
  cases command
  case GET =>
    rcases args with _ | ⟨key, _ | ⟨more, rest⟩⟩
    case cons.nil =>
      have none : (Id.run (executeCommand ⟨.GET, [key], i, j⟩ s clock)).1.values = [] := by
        show (valueResponse _ _).values = []
        unfold valueResponse
        split <;> rfl
      simp [none, Lists]
    all_goals simp [executeCommand, Lists, wrongArityResponse]
  case MGET =>
    rcases args with _ | ⟨key, keys⟩
    · simp [executeCommand, Lists, errorResponse]
    · have run : (Id.run (executeCommand ⟨.MGET, key :: keys, i, j⟩ s clock)).1.values =
        (Id.run (getAll s clock (key :: keys))).1 := rfl
      rw [run, getAll_cons]
      simp [Lists]
  case KEYS =>
    by_cases many : args.length > 1
    · have none : (Id.run (executeCommand ⟨.KEYS, args, i, j⟩ s clock)).1.values = [] := by
        simp only [executeCommand, if_pos many]
        rfl
      simp only [none, Lists, true_iff, not_and]
      omega
    · have run : (Id.run (executeCommand ⟨.KEYS, args, i, j⟩ s clock)).1.values =
          (Id.run (s.keys clock (args.headD "*"))).1.map some := by
        simp only [executeCommand, if_neg many]
        rfl
      rw [run, keys_exact, List.map_eq_nil_iff, List.filter_eq_nil_iff]
      simp only [Lists, Dict.mem_keys, pass_data h]
      constructor
      · rintro all ⟨_, k, v, found, stays, fits⟩
        exact all k ⟨v, found, stays⟩ fits
      · rintro none k ⟨v, found, stays⟩ fits
        exact none ⟨by omega, k, v, found, stays, fits⟩
  case EXPIRE =>
    rcases args with _ | ⟨key, _ | ⟨value, _ | ⟨more, rest⟩⟩⟩
    case cons.cons.nil =>
      simp only [executeCommand, Lists, not_false_eq_true, iff_true]
      cases parseTtlSeconds value <;> rfl
    all_goals simp [executeCommand, Lists, wrongArityResponse]
  all_goals
    simp only [Lists, not_false_eq_true, iff_true]
    rcases args with _ | ⟨key, _ | ⟨value, _ | ⟨more, rest⟩⟩⟩ <;> rfl

/-- The store after any history of calls and replayed requests on a worker's empty store. -/
def reached (history : List StoreStep) : MemoryStore ℚ :=
  history.foldl advance (fresh TimingWheel.default)

theorem reached_valid (history : List StoreStep) : (reached history).Valid := by
  rw [reached, run_eq_after]
  exact run_valid (fresh_valid (TimingWheel.fresh_valid _ _ _ _) rfl) _

namespace WorkerProcess

/-- **The process boundary.** Whatever the history of the worker's store, the readings and the
request: the worker answers with one `WorkerResponse`, and the response the caller builds from
it is that of `execute_command` if and only if that has no list of values. -/
theorem boundary_iff (w : WorkerProcess ℚ) (history : List StoreStep) (store : w.store = reached history)
    {request : CommandRequest} {requestId : String} (id : request.requestId = some requestId)
    (nonempty : requestId ≠ "") (uuid : String) (clock : Clock ℚ) :
    ∃ w' sent, w.handleRequest Id (workerRequest request uuid) clock .done = .ok w' ∧
      w'.responses = w.responses ++ [sent] ∧
      (commandResponse sent = (Id.run (executeCommand request w.store clock)).1 ↔
        ¬ Lists request w.store clock) := by
  obtain ⟨name, same⟩ := workerRequest_commandRequest id nonempty uuid
  obtain ⟨w', done⟩ := (handleRequest_ok_iff Id (workerRequest request uuid) clock .done).mpr
    ⟨returns_exact _, fun log _ _ => log.not_raises_done _⟩
  obtain ⟨r, executed, _, _, _, _, _, responses⟩ := handleRequest_ok Id done
  have result : Id.run (executeCommand request w.store clock) = r := by
    rw [← same]
    exact Except.ok.inj executed
  refine ⟨w', _, done, responses, ?_⟩
  have own : r.1.requestId = some requestId := by
    rw [← result, executeCommand_requestId, id]
  have valid : w.store.Valid := store ▸ reached_valid history
  rw [name, commandResponse_workerResponse own, ← executeCommand_values valid request clock, result]
  constructor
  · intro whole
    rw [← whole]
  · intro none
    obtain ⟨⟨kind, message, value, integer, errorCode, requestId', values⟩, s⟩ := r
    cases none
    rfl

/-- A worker whose store has had a `set`. -/
def holdingWorker : WorkerProcess ℚ where
  store := reached [.call ⟨.set "k" "v", Clock.still 1⟩]
  persistence := some (AofPersistence.opened [] .EVERY_N 100)
  running := true
  lastExpiration := 0
  responses := []
  logClosed := false

theorem get_crosses_boundary :
    ∃ w' sent, holdingWorker.handleRequest Id
        (workerRequest { command := .GET, args := ["k"], requestId := some "a" } "") (Clock.still 2)
        .done = .ok w' ∧
      w'.responses = holdingWorker.responses ++ [sent] ∧
      (commandResponse sent = (Id.run (executeCommand
          { command := .GET, args := ["k"], requestId := some "a" } holdingWorker.store
          (Clock.still 2))).1 ↔
        ¬ Lists { command := .GET, args := ["k"], requestId := some "a" } holdingWorker.store
          (Clock.still 2)) :=
  boundary_iff holdingWorker [.call ⟨.set "k" "v", Clock.still 1⟩] rfl rfl (by decide) "" (Clock.still 2)

/-- `MGET` of a held key arrives without its value. -/
theorem mget_arrives_empty :
    ¬ ∀ (w : WorkerProcess ℚ) (history : List StoreStep) (request : CommandRequest)
      (requestId uuid : String) (clock : Clock ℚ), w.store = reached history →
      request.requestId = some requestId → requestId ≠ "" →
      ∃ w' sent, w.handleRequest Id (workerRequest request uuid) clock .done = .ok w' ∧
        w'.responses = w.responses ++ [sent] ∧
        commandResponse sent = (Id.run (executeCommand request w.store clock)).1 := by
  intro claim
  obtain ⟨w', sent, done, answers, whole⟩ := claim holdingWorker
    [.call ⟨.set "k" "v", Clock.still 1⟩] { command := .MGET, args := ["k"], requestId := some "a" }
    "a" "" (Clock.still 2) rfl rfl (by decide)
  have values : (Id.run (executeCommand { command := .MGET, args := ["k"], requestId := some "a" }
      holdingWorker.store (Clock.still 2))).1.values = [some "v"] := by decide +kernel
  have lost : (commandResponse sent).values = [] := rfl
  rw [whole, values] at lost
  cases lost

end WorkerProcess
end LiteStore
