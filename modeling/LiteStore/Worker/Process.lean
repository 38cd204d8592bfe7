import LiteStore.Commands.Model
import LiteStore.Persistence.Model

/-!
# The worker process

`WorkerProcess` of `src/process_worker.py`, over any timestamps and any effect of
their arithmetic. One iteration of the loop of `run` is a step on a
`WorkerEvent`: what the request queue gives, the readings the iteration takes
and the outcome of the log append it may make. An exception leaves `run` and ends
the process. `str(snapshot)` is a parameter: nothing reads the text back.
-/

namespace LiteStore
set_option autoImplicit false
open Py

/-- A message on the request queue. -/
inductive QueueMessage where
  | request (msg : WorkerRequest)
  | control (msg : WorkerControl)
deriving DecidableEq

/-- The request a worker executes. -/
def WorkerRequest.commandRequest (msg : WorkerRequest) : CommandRequest where
  command := msg.command
  args := msg.args
  requestId := some msg.requestId
  clientId := msg.clientId

/-- `_is_write`. -/
def isWrite (request : CommandRequest) (response : CommandResponse) : Bool :=
  mutates request response

/-- The log after `_handle_request` has logged a request it executed, if it is a write. -/
def logWrite (persistence : Option AofPersistence) (request : CommandRequest)
    (response : CommandResponse) (outcome : LogOutcome) : Except PyError (Option AofPersistence) :=
  match persistence with
  | none => return none
  | some log =>
    if isWrite request response then
      match log.appendRequest request outcome with
      | (.error text, _) => .error (.osError text)
      | (.ok _, log) => return some log
    else return some log

/-- What the `close` of the log raises. -/
def closeLog (persistence : Option AofPersistence) (fsync : Except String Unit) : Except PyError Unit :=
  match persistence with
  | none => return
  | some log => (log.close fsync).mapError .osError

/-- The fields `_handle_request` copies into its `WorkerResponse`. -/
def workerResponse (requestId : String) (response : CommandResponse) : WorkerResponse where
  requestId := requestId
  kind := response.kind
  message := response.message
  value := response.value
  integer := response.integer
  errorCode := response.errorCode

/-- The state of a `WorkerProcess` in its loop; `responses` are the puts on the response
queue, the oldest first, and `logClosed` says whether the log's `close` has run. -/
structure WorkerProcess (τ : Type) [LinearOrder τ] [Zero τ] where
  store : MemoryStore τ
  persistence : Option AofPersistence
  running : Bool
  lastExpiration : τ
  responses : List WorkerResponse
  logClosed : Bool

/-- What one iteration of the loop meets. -/
structure WorkerEvent (τ : Type) where
  /-- `none` when the queue stays empty for the timeout. -/
  message : Option QueueMessage
  /-- The readings of the store while the message is handled. -/
  clock : Clock τ
  /-- The outcome of the log append or of the `os.fsync` of a `close`, if one is made. -/
  append : LogOutcome
  /-- `time.time()` at the end of the iteration. -/
  now : τ
  /-- The readings of the periodic expiry pass, if one is made. -/
  passClock : Clock τ

/-- How `run` stands. -/
inductive WorkerStatus (τ : Type) [LinearOrder τ] [Zero τ] where
  | running (w : WorkerProcess τ)
  | ended (w : WorkerProcess τ)
  | crashed (e : PyError) (responses : List WorkerResponse)

/-- What the process has put on its response queue. -/
def WorkerStatus.responses {τ : Type} [LinearOrder τ] [Zero τ] : WorkerStatus τ → List WorkerResponse
  | .running w => w.responses
  | .ended w => w.responses
  | .crashed _ responses => responses

/-- The worker, while it runs. -/
def WorkerStatus.worker? {τ : Type} [LinearOrder τ] [Zero τ] : WorkerStatus τ → Option (WorkerProcess τ)
  | .running w => some w
  | _ => none

namespace WorkerProcess

variable {τ : Type} [LinearOrder τ] [Zero τ] [Timestamp τ]
  (m : Type → Type) [PyMonad m] [TimeArith m τ] (str : Dict String String → String)

/-- The replay at the head of `run`. -/
def replayRecords (s : MemoryStore τ) (clocks : Nat → Clock τ) :
    List PersistRecord → m (MemoryStore τ)
  | [] => return s
  | record :: records => do
    let s ← s.applyReplayRequest (clocks 0) record.request
    replayRecords s (fun i => clocks (i + 1)) records

/-- A worker at the head of its loop. -/
def atLoop (store : MemoryStore τ) (persistence : Option AofPersistence) (now : τ) :
    WorkerProcess τ where
  store := store
  persistence := persistence
  running := true
  lastExpiration := now
  responses := []
  logClosed := false

/-- `run` up to its loop. -/
def start (persistence : Option AofPersistence) (clocks : Nat → Clock τ) (now : τ) :
    Except PyError (WorkerProcess τ) := do
  let records := persistence.elim [] AofPersistence.replay
  let store ← PyMonad.outcome
    (replayRecords m (MemoryStore.fresh TimingWheel.default) clocks records)
  return atLoop store persistence now

/-- `_handle_request`. -/
def handleRequest (w : WorkerProcess τ) (msg : WorkerRequest) (clock : Clock τ)
    (append : LogOutcome) : Except PyError (WorkerProcess τ) := do
  let request := msg.commandRequest
  let (response, store) ← PyMonad.outcome (executeCommand (m := m) request w.store clock)
  let persistence ← logWrite w.persistence request response append
  return { w with
    store := store
    persistence := persistence
    responses := w.responses ++ [workerResponse msg.requestId response] }

/-- `_handle_control`. -/
def handleControl (w : WorkerProcess τ) (msg : WorkerControl) (clock : Clock τ)
    (fsync : Except String Unit) : Except PyError (WorkerProcess τ) :=
  if msg.action = "shutdown" then do
    closeLog w.persistence fsync
    return { w with running := false, logClosed := w.persistence.isSome }
  else if msg.action = "snapshot" then do
    let (snapshot, store) ← PyMonad.outcome (w.store.snapshot (m := m) clock)
    -- An empty id is falsy, like a missing one.
    let requestId := match msg.requestId with
      | none | some "" => "__snapshot__"
      | some requestId => requestId
    return { w with
      store := store
      responses := w.responses ++ [{ requestId := requestId, kind := .BULK_STRING,
                                     value := some (str snapshot), message := some "__snapshot__" }] }
  else return w

/-- The dispatch of one iteration. -/
def handleMessage (w : WorkerProcess τ) (event : WorkerEvent τ) : Except PyError (WorkerProcess τ) :=
  match event.message with
  | none => return w
  | some (.request msg) => w.handleRequest m msg event.clock event.append
  | some (.control msg) => w.handleControl m str msg event.clock event.append.result

/-- The expiry pass that an iteration makes once `0.1` seconds have gone by since the last. -/
def expirePeriodically (w : WorkerProcess τ) (event : WorkerEvent τ) :
    Except PyError (WorkerProcess τ) :=
  if Timestamp.tenthSince event.now w.lastExpiration then do
    let (_, store) ← PyMonad.outcome (w.store.processExpirations (m := m) event.passClock none)
    return { w with store := store, lastExpiration := event.now }
  else return w

/-- One iteration of `while self._running`. -/
def step : WorkerStatus τ → WorkerEvent τ → WorkerStatus τ
  | .running w, event =>
    match w.handleMessage m str event with
    | .error e => .crashed e w.responses
    | .ok w =>
      match w.expirePeriodically m event with
      | .error e => .crashed e w.responses
      | .ok w => if w.running then .running w else .ended w
  | status, _ => status

/-- `run` on a log, whose replay and loop meet the readings and events given. -/
def run (persistence : Option AofPersistence) (clocks : Nat → Clock τ) (now : τ)
    (events : List (WorkerEvent τ)) : WorkerStatus τ :=
  match start m persistence clocks now with
  | .error e => .crashed e []
  | .ok w => events.foldl (step m str) (.running w)

end WorkerProcess
end LiteStore
