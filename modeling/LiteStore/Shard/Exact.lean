import LiteStore.Commands.Plain
import LiteStore.Shard.Runtime

/-!
# The runtime in exact time

A routed request changes the store of the worker it is routed to and no other.
Every state that a started runtime reaches by dispatches and refreshes keeps its
router and has valid stores on all its workers.
-/

namespace LiteStore
set_option autoImplicit false
open Py MemoryStore

/-- An execution is an expiry pass and the command. -/
theorem StoreWorker.execute_exact (w : StoreWorker ℚ) (clock : Clock ℚ) (request : CommandRequest) :
    Id.run (w.execute clock request) =
      let r := Id.run (executeCommand request (w.store.pass (clock 0)) (clock.drop 1))
      (r.1, { w with store := r.2 }) := rfl

namespace LiteStoreRuntime

variable (hash : String → Nat) {rt : LiteStoreRuntime ℚ}

theorem get?_worker (rt : LiteStoreRuntime ℚ) {id : String} (known : id ∈ rt.router.workerIds) :
    rt.workers.get? id = some (rt.worker id known) :=
  (Option.some_get _).symm

/-- The worker a request is routed to. -/
def chosen (rt : LiteStoreRuntime ℚ) (request : CommandRequest) : StoreWorker ℚ :=
  rt.worker (rt.router.routeRequest hash request).workerId (rt.router.routeRequest_mem hash request)

theorem executeRouted_exact (rt : LiteStoreRuntime ℚ) (clock : Clock ℚ) (request : CommandRequest) :
    Id.run (rt.executeRouted hash clock request) =
      let r := Id.run ((rt.chosen hash request).execute clock request)
      (r.1, rt.setWorker (rt.router.routeRequest hash request).workerId r.2) := rfl

/-- A routed request leaves the router and the log. -/
theorem executeRouted_frame (rt : LiteStoreRuntime ℚ) (clock : Clock ℚ) (request : CommandRequest) :
    (Id.run (rt.executeRouted hash clock request)).2.router = rt.router ∧
      (Id.run (rt.executeRouted hash clock request)).2.persistence = rt.persistence := ⟨rfl, rfl⟩

theorem replayPersistence_cons (rt : LiteStoreRuntime ℚ) (clocks : Nat → Clock ℚ)
    (record : PersistRecord) (records : List PersistRecord) :
    Id.run (rt.replayPersistence hash clocks (record :: records)) =
      Id.run ((Id.run (rt.executeRouted hash (clocks 0) record.request)).2.replayPersistence hash
        (fun i => clocks (i + 1)) records) := rfl

theorem dispatchRequest_log (rt : LiteStoreRuntime ℚ) (clock : Clock ℚ) (append : LogOutcome)
    (request : CommandRequest) :
    Id.run (rt.dispatchRequest hash clock append request) =
      let r := Id.run (rt.executeRouted hash clock request)
      r.2.logResponse append request r.1 := rfl

/-- A routed request changes one worker. -/
theorem executeRouted_workers (rt : LiteStoreRuntime ℚ) (clock : Clock ℚ) (request : CommandRequest)
    (id : String) :
    (Id.run (rt.executeRouted hash clock request)).2.workers.get? id =
      if id = (rt.router.routeRequest hash request).workerId then
        some (Id.run ((rt.chosen hash request).execute clock request)).2
      else rt.workers.get? id := by
  rw [executeRouted_exact]
  exact Dict.get?_set _ _ _ _

/-- Logging changes no worker, and only the answer to a write. -/
theorem logResponse_frame (rt : LiteStoreRuntime ℚ) (append : LogOutcome)
    (request : CommandRequest) (response : CommandResponse) :
    (rt.logResponse append request response).2.workers = rt.workers ∧
      (rt.logResponse append request response).2.router = rt.router ∧
      (isPersistedWrite request response = false →
        (rt.logResponse append request response).1 = response) := by
  unfold logResponse
  cases isPersistedWrite request response with
  | false => exact ⟨rfl, rfl, fun _ => rfl⟩
  | true =>
    rcases rt.persistence.appendRequest request append with ⟨text | record, persistence⟩ <;>
      exact ⟨rfl, rfl, by rintro ⟨⟩⟩

/-- A dispatch executes the request, and then it may only log it. -/
theorem dispatchRequest_exact (rt : LiteStoreRuntime ℚ) (clock : Clock ℚ)
    (append : LogOutcome) (request : CommandRequest) :
    let r := Id.run (rt.executeRouted hash clock request)
    let d := Id.run (rt.dispatchRequest hash clock append request)
    d.2.workers = r.2.workers ∧ d.2.router = rt.router ∧
      (isPersistedWrite request r.1 = false → d.1 = r.1) :=
  logResponse_frame (Id.run (rt.executeRouted hash clock request)).2 append request
    (Id.run (rt.executeRouted hash clock request)).1

/-! ## Reachable states -/

/-- What a started runtime does. -/
inductive RuntimeEvent where
  | dispatch (request : CommandRequest) (clock : Clock ℚ) (append : LogOutcome)
  | refresh (clocks : Nat → Clock ℚ)

/-- The runtime after an event. -/
def advance (rt : LiteStoreRuntime ℚ) : RuntimeEvent → LiteStoreRuntime ℚ
  | .dispatch request clock append => (Id.run (rt.dispatchRequest hash clock append request)).2
  | .refresh clocks => (Id.run (rt.refreshMetricsSnapshot clocks Dict.empty rt.workers.keys)).2

/-- A runtime that has been started on a log. -/
def started (workerCount : Nat) (positive : 0 < workerCount) (file : List Char)
    (clocks : Nat → Clock ℚ) : LiteStoreRuntime ℚ :=
  let rt := create workerCount positive file
  Id.run (rt.replayPersistence hash clocks rt.persistence.replay)

/-- Every worker has a valid store. -/
def AllValid (rt : LiteStoreRuntime ℚ) : Prop :=
  ∀ id w, rt.workers.get? id = some w → w.store.Valid

theorem freshWorkers_store (ids : List String) {id : String} {w : StoreWorker ℚ}
    (found : (freshWorkers ids).get? id = some w) : w.store = fresh TimingWheel.default := by
  have steps (l : List (String × Nat)) (d : Dict String (StoreWorker ℚ))
      (before : ∀ w, d.get? id = some w → w.store = fresh TimingWheel.default) :
      ∀ w, (l.foldl hostWorker d).get? id = some w → w.store = fresh TimingWheel.default := by
    induction l generalizing d with
    | nil => exact before
    | cons e l ih =>
      refine ih _ fun w found => ?_
      rw [hostWorker, Dict.get?_set] at found
      split at found
      · cases found
        rfl
      · exact before w found
  exact steps _ Dict.empty (by rintro w ⟨⟩) w found

theorem create_allValid (workerCount : Nat) (positive : 0 < workerCount) (file : List Char) :
    (create workerCount positive file).AllValid := by
  intro id w found
  rw [freshWorkers_store _ found]
  exact flushed_plain.toValid

theorem AllValid.executeRouted (h : rt.AllValid) (clock : Clock ℚ) (request : CommandRequest) :
    (Id.run (rt.executeRouted hash clock request)).2.AllValid := by
  intro id w found
  rw [executeRouted_workers] at found
  split at found
  · cases found
    have valid := h _ _ (get?_worker rt (rt.router.routeRequest_mem hash request))
    rw [StoreWorker.execute_exact]
    exact executeCommand_valid (pass_valid valid (clock 0)) request (clock.drop 1)
  · exact h id w found

theorem AllValid.dispatchRequest (h : rt.AllValid) (clock : Clock ℚ) (append : LogOutcome)
    (request : CommandRequest) : (Id.run (rt.dispatchRequest hash clock append request)).2.AllValid := by
  intro id w found
  rw [(dispatchRequest_exact hash rt clock append request).1] at found
  exact h.executeRouted hash clock request id w found

/-- A refresh passes over the stores of the workers and changes nothing else. -/
theorem refresh_workers {P : String → StoreWorker ℚ → Prop}
    (keep : ∀ id w t, P id w → P id { w with store := w.store.pass t })
    (h : ∀ id w, rt.workers.get? id = some w → P id w) (clocks : Nat → Clock ℚ)
    (aggregated : Dict String String) (ids : List String) :
    let rt' := (Id.run (rt.refreshMetricsSnapshot clocks aggregated ids)).2
    rt'.router = rt.router ∧ rt'.persistence = rt.persistence ∧
      ∀ id w, rt'.workers.get? id = some w → P id w := by
  induction ids generalizing rt clocks aggregated with
  | nil => exact ⟨rfl, rfl, h⟩
  | cons id ids ih =>
    simp only [refreshMetricsSnapshot]
    cases found : rt.workers.get? id with
    | none => exact ih h (fun i => clocks i) aggregated
    | some w =>
      have kept : ∀ id' w', (rt.setWorker id { w with store := w.store.pass (clocks 0 0) }).workers.get? id' =
          some w' → P id' w' := by
        intro id' w' found'
        have same := Dict.get?_set rt.workers id id' { w with store := w.store.pass (clocks 0 0) }
        rw [show (rt.setWorker id _).workers.get? id' = _ from same] at found'
        split at found'
        · rename_i here
          cases found'
          rw [here]
          exact keep id w _ (h id w found)
        · exact h id' w' found'
      exact ih kept _ _

/-- Neither a refresh nor the replay writes to the log. -/
theorem refresh_persistence (rt : LiteStoreRuntime ℚ) (clocks : Nat → Clock ℚ) (aggregated : Dict String String)
    (ids : List String) :
    (Id.run (rt.refreshMetricsSnapshot clocks aggregated ids)).2.persistence = rt.persistence :=
  (refresh_workers (P := fun _ _ => True) (fun _ _ _ _ => trivial) (fun _ _ _ => trivial) clocks aggregated ids).2.1

theorem replay_persistence (rt : LiteStoreRuntime ℚ) (clocks : Nat → Clock ℚ) (records : List PersistRecord) :
    (Id.run (rt.replayPersistence hash clocks records)).persistence = rt.persistence := by
  induction records generalizing rt clocks with
  | nil => rfl
  | cons record records ih =>
    rw [replayPersistence_cons, ih]
    exact (executeRouted_frame hash rt (clocks 0) record.request).2

theorem AllValid.refresh (h : rt.AllValid) (clocks : Nat → Clock ℚ) (aggregated : Dict String String)
    (ids : List String) :
    (Id.run (rt.refreshMetricsSnapshot clocks aggregated ids)).2.AllValid :=
  (refresh_workers (P := fun _ w => w.store.Valid) (fun _ _ t valid => pass_valid valid t) h clocks
    aggregated ids).2.2

theorem AllValid.replay (h : rt.AllValid) (clocks : Nat → Clock ℚ) (records : List PersistRecord) :
    (Id.run (rt.replayPersistence hash clocks records)).AllValid := by
  induction records generalizing rt clocks with
  | nil => exact h
  | cons record records ih => exact ih (h.executeRouted hash (clocks 0) record.request) _

/-- **Every reachable runtime** has valid stores. -/
theorem reached_allValid (workerCount : Nat) (positive : 0 < workerCount) (file : List Char)
    (clocks : Nat → Clock ℚ) (events : List RuntimeEvent) :
    (events.foldl (advance hash) (started hash workerCount positive file clocks)).AllValid := by
  have begins := (create_allValid workerCount positive file).replay hash clocks
    (create (τ := ℚ) workerCount positive file).persistence.replay
  induction events using List.reverseRecOn with
  | nil => exact begins
  | append_singleton events event ih =>
    rw [List.foldl_append]
    cases event with
    | dispatch request clock append => exact ih.dispatchRequest hash clock append request
    | refresh clocks => exact ih.refresh clocks _ _

end LiteStoreRuntime
end LiteStore
