import LiteStore.Worker.Process

/-!
# The worker pool

One worker of the `WorkerPool` of `src/worker_pool.py` and the calls of `execute`
that share it. A call puts its request and then waits in `response_queue.get` on
an executor thread; any waiting thread may take the next response, so a run is a
list of puts, iterations of the worker and gets in any order. A call is known by
its request id.
-/

namespace LiteStore
set_option autoImplicit false
open Py

/-- `request.request_id or str(uuid.uuid4())`. -/
def requestIdOr (request : CommandRequest) (uuid : String) : String :=
  match request.requestId with
  | none | some "" => uuid
  | some requestId => requestId

/-- The request that `execute` puts on the queue. -/
def workerRequest (request : CommandRequest) (uuid : String) : WorkerRequest where
  requestId := requestIdOr request uuid
  command := request.command
  args := request.args
  clientId := request.clientId

/-- The response that `execute` builds. -/
def commandResponse (response : WorkerResponse) : CommandResponse where
  kind := response.kind
  message := response.message
  value := response.value
  integer := response.integer
  errorCode := response.errorCode
  requestId := some response.requestId

/-- A worker, its two queues and the calls on it: those that wait, in the order of their puts,
and those that have returned. -/
structure WorkerHandle (τ : Type) [LinearOrder τ] [Zero τ] where
  requestQueue : List WorkerRequest
  worker : WorkerStatus τ
  responseQueue : List WorkerResponse
  waiting : List String
  returned : List (String × CommandResponse)

/-- A step of a run. -/
inductive PoolAction (τ : Type) where
  /-- A call puts its request. -/
  | put (msg : WorkerRequest)
  /-- The worker makes an iteration; it may find its queue empty even when a put is on its way. -/
  | work (takes : Bool) (clock : Clock τ) (append : LogOutcome) (now : τ)
      (passClock : Clock τ)
  /-- A waiting call takes the next response. -/
  | get (requestId : String)

namespace WorkerHandle

variable {τ : Type} [LinearOrder τ] [Zero τ] [Timestamp τ]
  (m : Type → Type) [PyMonad m] [TimeArith m τ] (str : Dict String String → String)

/-- A worker that waits for its first request. -/
def idle (w : WorkerProcess τ) : WorkerHandle τ := ⟨[], .running w, [], [], []⟩

/-- What the worker has put on its queue in a step. -/
def newResponses (before after : WorkerStatus τ) : List WorkerResponse :=
  after.responses.drop before.responses.length

/-- The request an iteration takes, and the queue after it; a process that is gone takes none. -/
def take (h : WorkerHandle τ) (takes : Bool) : Option WorkerRequest × List WorkerRequest :=
  match h.worker, takes, h.requestQueue with
  | .running _, true, msg :: rest => (some msg, rest)
  | _, _, queue => (none, queue)

def step (h : WorkerHandle τ) : PoolAction τ → WorkerHandle τ
  | .put msg =>
    { h with requestQueue := h.requestQueue ++ [msg], waiting := h.waiting ++ [msg.requestId] }
  | .work takes clock append now passClock =>
    let (message, requestQueue) := h.take takes
    let worker := WorkerProcess.step m str h.worker
      ⟨message.map .request, clock, append, now, passClock⟩
    { h with
      requestQueue := requestQueue
      worker := worker
      responseQueue := h.responseQueue ++ newResponses h.worker worker }
  | .get requestId =>
    match h.responseQueue with
    | response :: rest =>
      if requestId ∈ h.waiting then
        { h with
          responseQueue := rest
          waiting := h.waiting.erase requestId
          returned := h.returned ++ [(requestId, commandResponse response)] }
      else h
    | [] => h

end WorkerHandle
end LiteStore
