import LiteStore.Shard.Reshard
import LiteStore.Worker.Boundary

/-!
# One log for each worker

With multiprocessing each worker process keeps the log of its own partition, in a
file named by its id, and reads no other at its start. So after a restart with
another number of workers a key is found exactly if the worker that owned it
before still does: otherwise its records lie in a file that its new owner does not
open.
-/

namespace LiteStore
set_option autoImplicit false
open Py MemoryStore

/-- A `LiteStoreRuntime` with multiprocessing: its router and its worker processes by id. -/
structure PooledRuntime (τ : Type) [LinearOrder τ] [Zero τ] where
  router : DeterministicHashRouter
  workers : String → Option (WorkerStatus τ)

/-- The readings and the outcome of the append that one call of `WorkerPool.execute` meets in its
worker. -/
structure Readings (τ : Type) where
  clock : Clock τ
  append : LogOutcome
  now : τ
  passClock : Clock τ

/-- What happens in the pool: a call, which is put, executed and answered, or an iteration of a
worker that finds its queue empty. -/
inductive PooledEvent (τ : Type) where
  | call (request : CommandRequest) (uuid : String) (readings : Readings τ)
  | idle (id : String) (readings : Readings τ)

/-- The log of a process that has not crashed. -/
def WorkerStatus.log? {τ : Type} [LinearOrder τ] [Zero τ] : WorkerStatus τ → Option AofPersistence
  | .running w => w.persistence
  | .ended w => w.persistence
  | .crashed _ _ => none

namespace PooledRuntime

section Model

variable {τ : Type} [LinearOrder τ] [Zero τ] [Timestamp τ] (m : Type → Type) [PyMonad m] [TimeArith m τ]
  (str : Dict String String → String) (hash : String → Nat)

/-- `start_all` on log files that are known by the id in their names (`_aof_path_for_worker`). -/
def start (workerCount : Nat) (positive : 0 < workerCount) (files : String → List Char)
    (fsyncPolicy : FsyncPolicy) (fsyncEveryN : Int) (clocks : String → Nat → Clock τ)
    (now : String → τ) : PooledRuntime τ where
  router := (LiteStoreRuntime.create (τ := τ) workerCount positive []).router
  workers id :=
    if id ∈ LiteStoreRuntime.workerNames workerCount then
      some (WorkerProcess.run m str (some (AofPersistence.opened (files id) fsyncPolicy fsyncEveryN))
        (clocks id) (now id) [])
    else none

/-- The worker that an event concerns; a call is routed. -/
def target (rt : PooledRuntime τ) : PooledEvent τ → String
  | .call request _ _ => (rt.router.routeRequest hash request).workerId
  | .idle id _ => id

/-- What the event is to its worker. -/
def workerEvent : PooledEvent τ → WorkerEvent τ
  | .call request uuid r =>
    ⟨some (.request (workerRequest request uuid)), r.clock, r.append, r.now, r.passClock⟩
  | .idle _ r => ⟨none, r.clock, r.append, r.now, r.passClock⟩

/-- The pool after an event. -/
def step (rt : PooledRuntime τ) (event : PooledEvent τ) : PooledRuntime τ :=
  { rt with
    workers := fun id =>
      if id = rt.target hash event then
        (rt.workers id).map fun status => WorkerProcess.step m str status (workerEvent event)
      else rt.workers id }

/-- The response that a call gets: what its worker puts on the response queue for it. -/
def answer (rt : PooledRuntime τ) (request : CommandRequest) (uuid : String) (readings : Readings τ) :
    Option CommandResponse := do
  let status ← rt.workers (rt.router.routeRequest hash request).workerId
  let response ← (WorkerHandle.newResponses status
    (WorkerProcess.step m str status (workerEvent (.call request uuid readings)))).head?
  return commandResponse response

/-- The log files that a pool leaves. -/
def files (rt : PooledRuntime τ) (id : String) : List Char :=
  ((rt.workers id).bind WorkerStatus.log?).elim [] AofPersistence.file

end Model

variable (str : Dict String String → String) (hash : String → Nat)

/-- The event is idle, or a call of a keywise request whose log append succeeds. -/
def LoggedKeywise : PooledEvent ℚ → Prop
  | .call request _ readings => Keywise request ∧ readings.append = .done
  | .idle _ readings => readings.append = .done

/-- The records are of keywise requests that are routed to one worker. -/
def RoutedTo (router : DeterministicHashRouter) (id : String) (records : List PersistRecord) : Prop :=
  ∀ record ∈ records, Keywise record.request ∧ (router.routeRequest hash record.request).workerId = id

/-- The worker agrees with the records in its log, which are all routed to it. -/
def Owns (router : DeterministicHashRouter) (id : String) (status : WorkerStatus ℚ)
    (records : List PersistRecord) : Prop :=
  ∃ w, status = .running w ∧ w.Agrees records ∧ RoutedTo hash router id records

variable {hash} {router : DeterministicHashRouter} {id : String} {status : WorkerStatus ℚ}
  {records : List PersistRecord} {event : PooledEvent ℚ}

/-- The log of a worker holds its records. -/
theorem Owns.file (owns : Owns hash router id status records) :
    status.log?.elim [] AofPersistence.file = records.flatMap PersistRecord.line := by
  obtain ⟨w, rfl, agrees, _⟩ := owns
  obtain ⟨log, known, holds⟩ := agrees.logged
  rw [WorkerStatus.log?, known]
  exact holds.file

/-- The records of a worker make no value for a key of another. -/
theorem RoutedTo.other (routed : RoutedTo hash router id records) {key : String}
    (other : router.owner hash key ≠ id) :
    (dataAfter (records.map PersistRecord.request)).get? key = none := by
  induction records using List.reverseRecOn with
  | nil => rfl
  | append_singleton records record ih =>
    obtain ⟨keywise, here⟩ := routed record (by simp)
    have rest := ih fun r member => routed r (List.mem_append_left _ member)
    rw [List.map_append, List.map_singleton, dataAfter_append, dataCommand_get? keywise, rest]
    refine keyEffect_other (fun named => other ?_) none
    rw [← here, DeterministicHashRouter.routeRequest, named]
    rfl

/-- One event keeps what a worker owns. -/
theorem Owns.step (owns : Owns hash router id status records) (logged : LoggedKeywise event)
    (routed : ∀ request uuid readings, event = .call request uuid readings →
      (router.routeRequest hash request).workerId = id) :
    ∃ records', Owns hash router id (WorkerProcess.step Id str status (workerEvent event)) records' := by
  obtain ⟨w, rfl, agrees, owned⟩ := owns
  cases event with
  | idle id' readings =>
    obtain ⟨w', records', stepped, agrees', listed⟩ :=
      (agrees.step str (show WorkerProcess.Serves (workerEvent (.idle id' readings)) from Or.inl rfl) logged
        (by rintro msg ⟨⟩)).1 trivial
    refine ⟨records', w', stepped, agrees', fun record member => ?_⟩
    rcases listed record member with old | ⟨msg, none, _⟩
    · exact owned record old
    · cases none
  | call request uuid readings =>
    obtain ⟨keywise, success⟩ := logged
    obtain ⟨w', records', stepped, agrees', listed⟩ :=
      (agrees.step str (show WorkerProcess.Serves (workerEvent (.call request uuid readings)) from Or.inr ⟨_, rfl⟩)
        success
        (by rintro msg ⟨⟩; exact keywise.1)).1 fun flush => absurd flush keywise.2
    refine ⟨records', w', stepped, agrees', fun record member => ?_⟩
    rcases listed record member with old | ⟨msg, same, made⟩
    · exact owned record old
    · cases same
      rw [made]
      exact ⟨keywise, routed request uuid readings rfl⟩

/-! ## The pool -/

/-- Every worker of the pool owns the records in its log, and no other log has any. -/
def AllOwn (hash : String → Nat) (rt : PooledRuntime ℚ) : Prop :=
  ∀ id, (id ∈ rt.router.workerIds → ∃ status records, rt.workers id = some status ∧
    Owns hash rt.router id status records) ∧ (id ∉ rt.router.workerIds → rt.workers id = none)

theorem AllOwn.step {rt : PooledRuntime ℚ} (all : AllOwn hash rt) (logged : LoggedKeywise event) :
    AllOwn hash (rt.step Id str hash event) := by
  intro id
  obtain ⟨inside, outside⟩ := all id
  refine ⟨fun known => ?_, fun unknown => ?_⟩
  · obtain ⟨status, records, hosted, owns⟩ := inside known
    by_cases here : id = rt.target hash event
    · obtain ⟨records', owns'⟩ := owns.step str logged (by rintro request uuid readings rfl; exact here.symm)
      refine ⟨_, records', ?_, owns'⟩
      simp only [PooledRuntime.step, if_pos here, hosted, Option.map_some]
    · exact ⟨status, records, (if_neg here).trans hosted, owns⟩
  · simp only [PooledRuntime.step, outside unknown, Option.map_none, ite_self]

theorem AllOwn.run {rt : PooledRuntime ℚ} (all : AllOwn hash rt) {events : List (PooledEvent ℚ)}
    (logged : ∀ event ∈ events, LoggedKeywise event) :
    AllOwn hash (events.foldl (PooledRuntime.step Id str hash) rt) ∧
      (events.foldl (PooledRuntime.step Id str hash) rt).router = rt.router := by
  induction events generalizing rt with
  | nil => exact ⟨all, rfl⟩
  | cons event events ih =>
    exact ih (all.step str (logged event (by simp))) fun e member => logged e (by simp [member])

/-- What the file of an id holds, whether or not a worker of the pool has it. -/
theorem AllOwn.file {rt : PooledRuntime ℚ} (all : AllOwn hash rt) (id : String) :
    ∃ records, rt.files id = records.flatMap PersistRecord.line ∧ RoutedTo hash rt.router id records ∧
      (id ∈ rt.router.workerIds → ∃ w, rt.workers id = some (.running w) ∧ w.Agrees records) := by
  by_cases known : id ∈ rt.router.workerIds
  · obtain ⟨status, records, hosted, owns⟩ := (all id).1 known
    have file := owns.file
    obtain ⟨w, rfl, agrees, routed⟩ := owns
    refine ⟨records, ?_, routed, fun _ => ⟨w, hosted, agrees⟩⟩
    rw [files, hosted]
    exact file
  · refine ⟨[], ?_, by simp [RoutedTo], fun inside => absurd inside known⟩
    rw [files, (all id).2 known]
    rfl

/-- A pool that starts on a worker's records gives that worker what they make. -/
theorem start_worker (workerCount : Nat) (positive : 0 < workerCount) (files : String → List Char)
    (fsyncPolicy : FsyncPolicy) (fsyncEveryN : Int) (clocks : String → Nat → Clock ℚ) (now : String → ℚ)
    {id : String} (known : id ∈ LiteStoreRuntime.workerNames workerCount) {records : List PersistRecord}
    (file : files id = records.flatMap PersistRecord.line)
    (untimed : ∀ record ∈ records, record.request.command ≠ .EXPIRE) :
    ∃ w, (start Id str workerCount positive files fsyncPolicy fsyncEveryN clocks now).workers id =
      some (.running w) ∧ w.Agrees records := by
  obtain ⟨w, started, agrees⟩ :=
    WorkerProcess.start_agrees records untimed fsyncPolicy fsyncEveryN (clocks id) (now id)
  refine ⟨w, ?_, agrees⟩
  simp only [start, if_pos known, WorkerProcess.run, file, started, List.foldl_nil]

variable (hash) in
theorem start_allOwn (workerCount : Nat) (positive : 0 < workerCount) (fsyncPolicy : FsyncPolicy)
    (fsyncEveryN : Int) (clocks : String → Nat → Clock ℚ) (now : String → ℚ) :
    AllOwn hash (start Id str workerCount positive (fun _ => []) fsyncPolicy fsyncEveryN clocks now) := by
  intro id
  refine ⟨fun known => ?_, fun unknown => if_neg unknown⟩
  obtain ⟨w, hosted, agrees⟩ := start_worker str workerCount positive (fun _ => []) fsyncPolicy
    fsyncEveryN clocks now known (show [] = ([] : List PersistRecord).flatMap PersistRecord.line from rfl)
    (by simp)
  exact ⟨_, [], hosted, w, rfl, agrees, by simp [RoutedTo]⟩

/-! ## Answers -/

/-- The answer of a worker that runs is that of its command. -/
theorem answer_running {rt : PooledRuntime ℚ} {request : CommandRequest} {w : WorkerProcess ℚ}
    (hosted : rt.workers (rt.router.routeRequest hash request).workerId = some (.running w))
    (running : w.running = true) (uuid : String) {readings : Readings ℚ}
    (success : readings.append = .done) :
    rt.answer Id str hash request uuid readings =
      some (commandResponse (workerResponse (requestIdOr request uuid)
        (Id.run (executeCommand (workerRequest request uuid).commandRequest w.store readings.clock)).1)) := by
  obtain ⟨w', done⟩ := (WorkerProcess.handleRequest_ok_iff Id (w := w) (workerRequest request uuid)
    readings.clock readings.append).mpr ⟨returns_exact _, fun _ _ _ => success ▸ AofPersistence.not_raises_done _ _⟩
  obtain ⟨r, executed, _, _, running', _, _, responses⟩ := WorkerProcess.handleRequest_ok Id done
  obtain ⟨w'', passed⟩ := WorkerProcess.passes_exact w' (workerEvent (.call request uuid readings))
  obtain ⟨_, running'', kept, _⟩ := WorkerProcess.expirePeriodically_ok Id passed
  have result : Id.run (executeCommand (workerRequest request uuid).commandRequest w.store
      readings.clock) = r := Except.ok.inj executed
  have handled : w.handleMessage Id str (workerEvent (.call request uuid readings)) = .ok w' := done
  have alive : w''.running = true := by rw [running'', running', running]
  have stepped : WorkerProcess.step Id str (.running w) (workerEvent (.call request uuid readings)) =
      .running w'' := by
    simp only [WorkerProcess.step, handled, passed, alive, if_true]
  simp only [answer, hosted, stepped, Option.bind_eq_bind, Option.bind_some, WorkerHandle.newResponses,
    WorkerStatus.responses, kept, responses, List.drop_left, List.head?_cons, result]
  rfl

/-- The answer to a `GET` that finds nothing. -/
def nullAnswer (request : CommandRequest) (uuid : String) : CommandResponse where
  kind := .NULL
  requestId := some (requestIdOr request uuid)

/-- The answer to a `GET`, by the value its worker holds. -/
def getAnswer (request : CommandRequest) (uuid : String) : Option String → CommandResponse
  | none => nullAnswer request uuid
  | some value =>
    { kind := .BULK_STRING, value := some value, requestId := some (requestIdOr request uuid) }

theorem answer_get {rt : PooledRuntime ℚ} {key : String} {w : WorkerProcess ℚ}
    {records : List PersistRecord} (hosted : rt.workers (rt.router.owner hash key) = some (.running w))
    (agrees : w.Agrees records) (i j : Option String) (uuid : String) {readings : Readings ℚ}
    (success : readings.append = .done) :
    rt.answer Id str hash ⟨.GET, [key], i, j⟩ uuid readings =
      some (getAnswer ⟨.GET, [key], i, j⟩ uuid
        ((dataAfter (records.map PersistRecord.request)).get? key)) := by
  rw [answer_running str hosted agrees.running uuid success,
    (executeCommand_plain agrees.plain _ readings.clock).1, agrees.data]
  have get (d : Dict String String) :
      (dataCommand (workerRequest ⟨.GET, [key], i, j⟩ uuid).commandRequest d).1 =
        valueResponse (workerRequest ⟨.GET, [key], i, j⟩ uuid).commandRequest (d.get? key) := rfl
  rw [get]
  cases (dataAfter (records.map PersistRecord.request)).get? key <;> rfl

/-- **A restart with another number of workers.** After any run of keywise calls with `n` workers on
new log files, and a restart on those files with `m` workers: a `GET` is answered as before if the
key is routed to the same worker id as before, and by a null otherwise. -/
theorem restarted_answer (str : Dict String String → String) (hash : String → Nat) (n m : Nat)
    (n_pos : 0 < n) (m_pos : 0 < m) (fsyncPolicy : FsyncPolicy) (fsyncEveryN : Int)
    (clocks clocks' : String → Nat → Clock ℚ) (now now' : String → ℚ) (events : List (PooledEvent ℚ))
    (logged : ∀ event ∈ events, LoggedKeywise event) (key : String) (i j : Option String)
    (uuid : String) (readings readings' : Readings ℚ) (success : readings.append = .done)
    (success' : readings'.append = .done) :
    let before := events.foldl (step Id str hash)
      (start Id str n n_pos (fun _ => []) fsyncPolicy fsyncEveryN clocks now)
    let restarted := start Id str m m_pos before.files fsyncPolicy fsyncEveryN clocks' now'
    let get : CommandRequest := ⟨.GET, [key], i, j⟩
    restarted.answer Id str hash get uuid readings' =
      if (restarted.router.routeKey hash key).workerId = (before.router.routeKey hash key).workerId then
        before.answer Id str hash get uuid readings
      else some (nullAnswer get uuid) := by
  intro before restarted get
  obtain ⟨all, routes⟩ := (start_allOwn str hash n n_pos fsyncPolicy fsyncEveryN clocks now).run
    str logged
  set id := restarted.router.owner hash key with hid
  have known : id ∈ LiteStoreRuntime.workerNames m := List.get_mem _ _
  obtain ⟨records, file, routed, owner⟩ := all.file id
  obtain ⟨w', hosted', agrees'⟩ := start_worker str m m_pos before.files fsyncPolicy fsyncEveryN clocks'
    now' known file fun record member => (routed record member).1.1
  rw [answer_get str hosted' agrees' i j uuid success']
  split
  · rename_i same
    have same : id = before.router.owner hash key := same
    obtain ⟨w, hosted, agrees⟩ := owner (same ▸ List.get_mem _ _)
    rw [same] at hosted
    exact (answer_get str hosted agrees i j uuid success).symm
  · rename_i other
    rw [routed.other fun same => other same.symm]
    rfl

/-- A call at a clock that stands still. -/
def callAt (t : ℚ) (command : CommandName) (args : List String) : PooledEvent ℚ :=
  .call { command := command, args := args, requestId := some "a" } "" ⟨Clock.still t, .done, t, Clock.still t⟩

theorem two_keys_after_restart :
    let before : PooledRuntime ℚ := [callAt 1 .SET ["a", "1"], callAt 2 .SET ["d", "2"]].foldl
      (step Id (fun _ => "") Sha256.leading) (start Id (fun _ => "") 2 (by decide) (fun _ => []) .EVERY_N 100
        (fun _ _ => Clock.still 0) fun _ => 0)
    let restarted : PooledRuntime ℚ := start Id (fun _ => "") 3 (by decide) before.files .EVERY_N 100
      (fun _ _ => Clock.still 3) fun _ => 3
    let get : CommandRequest := ⟨.GET, ["d"], some "b", none⟩
    restarted.answer Id (fun _ => "") Sha256.leading get "" ⟨Clock.still 4, .done, 4, Clock.still 4⟩ =
      if (restarted.router.routeKey Sha256.leading "d").workerId =
          (before.router.routeKey Sha256.leading "d").workerId then
        before.answer Id (fun _ => "") Sha256.leading get "" ⟨Clock.still 3, .done, 3, Clock.still 3⟩
      else some (nullAnswer get "") :=
  restarted_answer (fun _ => "") Sha256.leading 2 3 (by decide) (by decide) .EVERY_N 100
    (fun _ _ => Clock.still 0) (fun _ _ => Clock.still 3) (fun _ => 0) (fun _ => 3)
    [callAt 1 .SET ["a", "1"], callAt 2 .SET ["d", "2"]] (by simp [callAt, LoggedKeywise, Keywise]) "d"
    (some "b") none "" ⟨Clock.still 3, .done, 3, Clock.still 3⟩ ⟨Clock.still 4, .done, 4, Clock.still 4⟩
    rfl rfl

/-- The call is one of the three commands on single keys, and its log append succeeds. -/
def SetDelGet : PooledEvent ℚ → Prop
  | .call request _ readings => request.command ∈ [.SET, .DEL, .GET] ∧ request.Accepted ∧ readings.append = .done
  | .idle _ readings => readings.append = .done

/-- A key of the only worker is lost when a second worker comes to own it. -/
theorem restart_loses_key :
    ¬ ∀ (hash : String → Nat) (n m : Nat) (n_pos : 0 < n) (m_pos : 0 < m) (events : List (PooledEvent ℚ))
      (clocks clocks' : String → Nat → Clock ℚ) (now now' : String → ℚ) (key : String)
      (readings readings' : Readings ℚ),
      (∀ event ∈ events, SetDelGet event) → readings.append = .done → readings'.append = .done →
      let before : PooledRuntime ℚ := events.foldl (step Id (fun _ => "") hash)
        (start Id (fun _ => "") n n_pos (fun _ => []) .EVERY_N 100 clocks now)
      let restarted : PooledRuntime ℚ := start Id (fun _ => "") m m_pos before.files .EVERY_N 100 clocks' now'
      let get : CommandRequest := { command := .GET, args := [key], requestId := some "b" }
      restarted.answer Id (fun _ => "") hash get "" readings' =
        before.answer Id (fun _ => "") hash get "" readings := by
  intro claim
  have same := claim Sha256.leading 1 2 (by decide) (by decide) [callAt 1 .SET ["d", "v"]]
    (fun _ _ => Clock.still 0) (fun _ _ => Clock.still 2) (fun _ => 0) (fun _ => 2) "d"
    ⟨Clock.still 2, .done, 2, Clock.still 2⟩ ⟨Clock.still 3, .done, 3, Clock.still 3⟩
    (by simp [callAt, SetDelGet, CommandRequest.Accepted, CommandName.TakesArgs]) rfl rfl
  revert same
  decide +kernel

end PooledRuntime
end LiteStore
