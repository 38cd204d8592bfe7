import LiteStore.Commands.Model
import LiteStore.Lib.Machine
import LiteStore.Persistence.Model
import LiteStore.Shard.Router

/-!
# The in-process runtime

`StoreWorker` of `src/worker.py` and the single-process mode of
`LiteStoreRuntime` of `src/server.py`: the replay at its start, the dispatch of a
request and the refresh of the metrics, which takes a snapshot of every store.
The workers run between `start` and `close`, so `_ensure_started` passes.
-/

namespace LiteStore
set_option autoImplicit false
open Py

/-- The state of a `StoreWorker`. -/
structure StoreWorker (τ : Type) [LinearOrder τ] [Zero τ] where
  workerId : String
  partitionId : Nat
  store : MemoryStore τ

/-- `_is_persisted_write`. -/
def isPersistedWrite (request : CommandRequest) (response : CommandResponse) : Bool :=
  mutates request response

/-- The response to a write that could not be logged. -/
def persistenceErrorResponse (request : CommandRequest) (text : String) : CommandResponse where
  kind := .ERROR
  errorCode := some .PERSISTENCE_ERROR
  message := some s!"Persistence append failed: {text}"
  requestId := request.requestId

/-- The state of a `LiteStoreRuntime` without multiprocessing; each worker the router knows is
there. -/
structure LiteStoreRuntime (τ : Type) [LinearOrder τ] [Zero τ] where
  router : DeterministicHashRouter
  workers : Dict String (StoreWorker τ)
  persistence : AofPersistence
  hosted : ∀ id ∈ router.workerIds, workers.contains id = true

section Model

variable {τ : Type} [LinearOrder τ] [Zero τ] [Timestamp τ] {m : Type → Type} [Monad m] [TimeArith m τ]
  (hash : String → Nat)

/-- `StoreWorker.execute`. -/
def StoreWorker.execute (w : StoreWorker τ) (clock : Clock τ) (request : CommandRequest) :
    m (CommandResponse × StoreWorker τ) := do
  let (_, s) ← w.store.processExpirations clock none
  let (response, s) ← executeCommand request s (clock.drop 1)
  return (response, { w with store := s })

/-- `StoreWorker.snapshot`. -/
def StoreWorker.snapshot (w : StoreWorker τ) (clock : Clock τ) :
    m (Dict String String × StoreWorker τ) := do
  let (snapshot, s) ← w.store.snapshot clock
  return (snapshot, { w with store := s })

namespace LiteStoreRuntime

/-- `[f"w{index}" for index in range(worker_count)]`. -/
def workerNames (workerCount : Nat) : List String :=
  (List.range workerCount).map fun index => s!"w{index}"

/-- One worker of the constructor's comprehension. -/
def hostWorker (workers : Dict String (StoreWorker τ)) (entry : String × Nat) :
    Dict String (StoreWorker τ) :=
  workers.set entry.1 ⟨entry.1, entry.2, MemoryStore.fresh TimingWheel.default⟩

/-- The workers of the constructor. -/
def freshWorkers (ids : List String) : Dict String (StoreWorker τ) :=
  ids.zipIdx.foldl hostWorker Dict.empty

theorem freshWorkers_contains (ids : List String) (id : String) :
    (freshWorkers (τ := τ) ids).contains id = true ↔ id ∈ ids := by
  have steps (l : List (String × Nat)) (d : Dict String (StoreWorker τ)) :
      (l.foldl hostWorker d).contains id = true ↔ id ∈ l.map Prod.fst ∨ d.contains id = true := by
    induction l generalizing d with
    | nil => simp
    | cons e l ih =>
      rw [List.foldl_cons, ih, hostWorker, Dict.contains_set, List.map_cons, List.mem_cons]
      tauto
  rw [freshWorkers, steps, List.zipIdx_map_fst]
  simp [Dict.contains]

/-- `LiteStoreRuntime(config)` on a log file with this text. -/
def create (workerCount : Nat) (positive : 0 < workerCount) (file : List Char) :
    LiteStoreRuntime τ where
  router := ⟨workerNames workerCount, by simpa [workerNames] using positive.ne'⟩
  workers := freshWorkers (workerNames workerCount)
  persistence := AofPersistence.opened file .EVERY_N 100
  hosted id member := (freshWorkers_contains _ id).mpr member

/-- `self._workers[id]` for a worker the router knows. -/
def worker (rt : LiteStoreRuntime τ) (id : String) (known : id ∈ rt.router.workerIds) : StoreWorker τ :=
  (rt.workers.get? id).get (rt.hosted id known)

/-- The runtime after a worker has changed its store. -/
def setWorker (rt : LiteStoreRuntime τ) (id : String) (w : StoreWorker τ) : LiteStoreRuntime τ :=
  { rt with
    workers := rt.workers.set id w
    hosted := fun i member => (Dict.contains_set _ _ _ _).mpr (Or.inr (rt.hosted i member)) }

/-- Route a request and execute it on the chosen worker. -/
def executeRouted (rt : LiteStoreRuntime τ) (clock : Clock τ) (request : CommandRequest) :
    m (CommandResponse × LiteStoreRuntime τ) := do
  let route := rt.router.routeRequest hash request
  let (response, w) ← (rt.worker route.workerId (rt.router.routeRequest_mem hash request)).execute
    clock request
  return (response, rt.setWorker route.workerId w)

/-- The end of `_dispatch_request`: a write is logged, and an `OSError` of that is answered. -/
def logResponse (rt : LiteStoreRuntime τ) (append : LogOutcome) (request : CommandRequest)
    (response : CommandResponse) : CommandResponse × LiteStoreRuntime τ :=
  if isPersistedWrite request response then
    match rt.persistence.appendRequest request append with
    | (.error text, persistence) => (persistenceErrorResponse request text, { rt with persistence })
    | (.ok _, persistence) => (response, { rt with persistence })
  else (response, rt)

/-- `_dispatch_request`. -/
def dispatchRequest (rt : LiteStoreRuntime τ) (clock : Clock τ) (append : LogOutcome)
    (request : CommandRequest) : m (CommandResponse × LiteStoreRuntime τ) := do
  let (response, rt) ← rt.executeRouted hash clock request
  return rt.logResponse append request response

/-- `_replay_persistence`. -/
def replayPersistence (rt : LiteStoreRuntime τ) (clocks : Nat → Clock τ) :
    List PersistRecord → m (LiteStoreRuntime τ)
  | [] => return rt
  | record :: records => do
    let (_, rt) ← rt.executeRouted hash (clocks 0) record.request
    replayPersistence rt (fun i => clocks (i + 1)) records

/-- The loop of `_refresh_metrics_snapshot` over the workers with these ids. -/
def refreshMetricsSnapshot (rt : LiteStoreRuntime τ) (clocks : Nat → Clock τ)
    (aggregated : Dict String String) : List String → m (Dict String String × LiteStoreRuntime τ)
  | [] => return (aggregated, rt)
  | id :: ids =>
    match rt.workers.get? id with
    | none => refreshMetricsSnapshot rt clocks aggregated ids
    | some w => do
      let (snapshot, w) ← w.snapshot (clocks 0)
      let aggregated := snapshot.entries.foldl (fun d e => d.set e.1 e.2) aggregated
      refreshMetricsSnapshot (rt.setWorker id w) (fun i => clocks (i + 1)) aggregated ids

end LiteStoreRuntime
end Model
end LiteStore
