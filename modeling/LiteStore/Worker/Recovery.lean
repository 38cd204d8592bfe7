import LiteStore.Commands.Plain
import LiteStore.Persistence.Torn
import LiteStore.Worker.Answers

/-!
# What the log gives back

Without `EXPIRE` the store of a worker is the dictionary its requests make, and
replay makes one from the requests in the log (`dataAfter`). A write is logged, a
read changes nothing, and `FLUSHALL` changes the store without a record: as long
as it finds nothing to delete, the two dictionaries agree after every prefix of
a run, and the first time it does they part.
-/

namespace LiteStore
set_option autoImplicit false
open Py MemoryStore

/-- The dictionary that requests without deadlines make, one after the other. -/
def dataAfter (requests : List CommandRequest) : Dict String String :=
  requests.foldl (fun d request => (dataCommand request d).2) Dict.empty

/-- What a command does to the dictionary is up to its name and its arguments. -/
theorem dataCommand_ids (command : CommandName) (args : List String) (i j i' j' : Option String)
    (d : Dict String String) :
    (dataCommand ⟨command, args, i, j⟩ d).2 = (dataCommand ⟨command, args, i', j'⟩ d).2 := by
  cases command
  case EXPIRE =>
    rcases args with _ | ⟨key, _ | ⟨value, _ | ⟨more, rest⟩⟩⟩ <;> try rfl
    simp only [dataCommand]
    cases parseTtlSeconds value <;> rfl
  case KEYS => rw [dataCommand_keys, dataCommand_keys]
  all_goals rcases args with _ | ⟨key, _ | ⟨value, _ | ⟨more, rest⟩⟩⟩ <;> rfl

/-! ## Replay -/

/-- A replayed request does to a store without deadlines what its command does. -/
theorem applyReplayRequest_plain {s : MemoryStore ℚ} (h : s.Plain) {request : CommandRequest}
    (untimed : request.command ≠ .EXPIRE) (clock : Clock ℚ) :
    (Id.run (s.applyReplayRequest clock request)).data = (dataCommand request s.data).2 ∧
      (Id.run (s.applyReplayRequest clock request)).Plain := by
  have first := h.pass (clock 0)
  have second := first.pass (clock 1)
  have data : ((s.pass (clock 0)).pass (clock 1)).data = s.data := by
    rw [first.pass_data, h.pass_data]
  obtain ⟨command, args, i, j⟩ := request
  cases command
  case SET =>
    rcases args with _ | ⟨key, _ | ⟨value, _ | ⟨more, rest⟩⟩⟩
    case cons.cons.nil =>
      exact ⟨congrArg (fun d => d.set key value) data, second.put key value⟩
    all_goals exact ⟨h.pass_data (clock 0), first⟩
  case DEL =>
    rcases args with _ | ⟨key, _ | ⟨more, rest⟩⟩
    case cons.nil =>
      obtain ⟨_, erased, plain⟩ := first.delete (clock.drop 1) key
      rw [h.pass_data] at erased
      exact ⟨erased, plain⟩
    all_goals exact ⟨h.pass_data (clock 0), first⟩
  case EXPIRE => exact absurd rfl untimed
  case FLUSHALL =>
    rcases args with _ | ⟨key, rest⟩
    · exact ⟨rfl, flushed_plain⟩
    · exact ⟨h.pass_data (clock 0), first⟩
  case KEYS =>
    rw [dataCommand_keys]
    exact ⟨h.pass_data (clock 0), first⟩
  all_goals
    rcases args with _ | ⟨key, _ | ⟨value, rest⟩⟩ <;> exact ⟨h.pass_data (clock 0), first⟩

namespace WorkerProcess

/-- A whole replay. -/
theorem replayRecords_plain {s : MemoryStore ℚ} (h : s.Plain) {records : List PersistRecord}
    (untimed : ∀ record ∈ records, record.request.command ≠ .EXPIRE) (clocks : Nat → Clock ℚ) :
    (Id.run (replayRecords Id s clocks records)).data =
        (records.map PersistRecord.request).foldl (fun d request => (dataCommand request d).2) s.data ∧
      (Id.run (replayRecords Id s clocks records)).Plain := by
  induction records generalizing s clocks with
  | nil => exact ⟨rfl, h⟩
  | cons record records ih =>
    obtain ⟨data, plain⟩ := applyReplayRequest_plain h (untimed record (by simp)) (clocks 0)
    have rest := ih plain (fun r member => untimed r (by simp [member])) fun i => clocks (i + 1)
    rw [data] at rest
    exact rest

/-! ## The store and the log -/

/-- The log holds the records whole. -/
def LogHolds (w : WorkerProcess ℚ) (records : List PersistRecord) : Prop :=
  ∃ log, w.persistence = some log ∧ log.Holds records

/-- The store has what the records in the log make. -/
structure Agrees (w : WorkerProcess ℚ) (records : List PersistRecord) : Prop where
  running : w.running = true
  plain : w.store.Plain
  logged : w.LogHolds records
  untimed : ∀ record ∈ records, record.request.command ≠ .EXPIRE
  data : w.store.data = dataAfter (records.map PersistRecord.request)

/-- A restart gives back what the worker holds: replay of its log into a fresh store, at any
readings, finds every key with the value the worker's store has. -/
def Recovered (status : WorkerStatus ℚ) : Prop :=
  ∃ w log, status = .running w ∧ w.persistence = some log ∧
    ∀ (clocks : Nat → Clock ℚ) (k : String),
      (Id.run (replayRecords Id (fresh TimingWheel.default) clocks log.replay)).data.get? k =
        w.store.data.get? k

/-- An event that deletes everything finds nothing to delete. -/
def FlushesEmpty (status : WorkerStatus ℚ) (event : WorkerEvent ℚ) : Prop :=
  match status, event.message with
  | .running w, some (.request msg) =>
    msg.command = .FLUSHALL → msg.args = [] → w.store.data = Dict.empty
  | _, _ => True

instance (status : WorkerStatus ℚ) (event : WorkerEvent ℚ) : Decidable (FlushesEmpty status event) := by
  unfold FlushesEmpty
  split <;> infer_instance

/-- Replay of a log of whole records makes what they make. -/
theorem replay_whole {log : AofPersistence} {records : List PersistRecord} (holds : log.Holds records)
    (untimed : ∀ record ∈ records, record.request.command ≠ .EXPIRE) (clocks : Nat → Clock ℚ) :
    let s := Id.run (replayRecords Id (fresh TimingWheel.default) clocks log.replay)
    s.data = dataAfter (records.map PersistRecord.request) ∧ s.Plain := by
  have read : log.replay = records.map PersistRecord.logged := holds.replay
  have untimed' : ∀ record ∈ records.map PersistRecord.logged, record.request.command ≠ .EXPIRE := by
    intro record member
    obtain ⟨record', member', rfl⟩ := List.mem_map.mp member
    exact untimed record' member'
  obtain ⟨data, plain⟩ := replayRecords_plain flushed_plain untimed' clocks
  refine ⟨?_, by rw [read]; exact plain⟩
  rw [read, data, dataAfter, List.map_map, List.foldl_map, List.foldl_map]
  congr 1
  funext d record
  exact dataCommand_ids _ _ _ _ _ _ d

theorem Agrees.recovered {w : WorkerProcess ℚ} {records : List PersistRecord}
    (agrees : w.Agrees records) : Recovered (.running w) := by
  obtain ⟨log, known, holds⟩ := agrees.logged
  refine ⟨w, log, rfl, known, fun clocks k => ?_⟩
  rw [(replay_whole holds agrees.untimed clocks).1, agrees.data]

/-! ## One iteration -/

/-- A request that writes nothing and deletes nothing leaves the dictionary as it is. -/
theorem dataCommand_unwritten {request : CommandRequest} {s : MemoryStore ℚ} {clock : Clock ℚ}
    (untimed : request.command ≠ .EXPIRE) (unwritten : ¬ Writes Id request s clock)
    (unflushed : ¬ (request.command = .FLUSHALL ∧ request.args = [])) (d : Dict String String) :
    (dataCommand request d).2 = d := by
  obtain ⟨command, args, i, j⟩ := request
  cases command
  case SET =>
    rcases args with _ | ⟨key, _ | ⟨value, _ | ⟨more, rest⟩⟩⟩ <;> try rfl
    exact absurd trivial unwritten
  case DEL =>
    rcases args with _ | ⟨key, _ | ⟨value, rest⟩⟩ <;> try rfl
    exact absurd trivial unwritten
  case EXPIRE => exact absurd rfl untimed
  case FLUSHALL =>
    rcases args with _ | ⟨key, rest⟩ <;> try rfl
    exact absurd ⟨rfl, rfl⟩ unflushed
  case KEYS => exact dataCommand_keys args i j d
  all_goals rcases args with _ | ⟨key, _ | ⟨value, rest⟩⟩ <;> rfl

/-- A pass changes no dictionary without deadlines. -/
theorem plain_left {s s' : MemoryStore ℚ} {t : ℚ} (h : s.Plain) (left : s' = s ∨ s' = s.pass t) :
    s'.data = s.data ∧ s'.Plain := by
  rcases left with rfl | rfl
  · exact ⟨rfl, h⟩
  · exact ⟨h.pass_data t, h.pass t⟩

variable (str : Dict String String → String)

/-- An iteration on a request: the command acts on the store, and the log makes that as well if
the request is a write, and what it made before if not. -/
theorem Agrees.served {w : WorkerProcess ℚ} {records : List PersistRecord} (agrees : w.Agrees records)
    {event : WorkerEvent ℚ} {msg : WorkerRequest} (request : event.message = some (.request msg))
    (success : event.append = .done) (timeless : msg.command ≠ .EXPIRE) :
    ∃ w' records', WorkerProcess.step Id str (.running w) event = .running w' ∧ w'.running = true ∧
      w'.store.Plain ∧ w'.store.data = (dataCommand msg.commandRequest w.store.data).2 ∧
      w'.LogHolds records' ∧
      (∀ record ∈ records', record ∈ records ∨ record.request = msg.commandRequest) ∧
      dataAfter (records'.map PersistRecord.request) =
        if isWrite msg.commandRequest (Id.run (executeCommand msg.commandRequest w.store event.clock)).1
        then (dataCommand msg.commandRequest w.store.data).2 else w.store.data := by
  obtain ⟨w', stepped, running, log, store⟩ :=
    step_exact str agrees.running (Or.inr ⟨msg, request⟩) success
  simp only [handled, request] at log store
  obtain ⟨_, data, keep⟩ := executeCommand_plain agrees.plain msg.commandRequest event.clock
  obtain ⟨left, plain⟩ := plain_left (keep timeless) store
  obtain ⟨log', known, holds⟩ := agrees.logged
  rw [known, Option.map_some] at log
  split at log
  · rename_i write
    refine ⟨w', records ++ [⟨log'.nextSequence, msg.commandRequest⟩], stepped, running, plain,
      left.trans data, ⟨_, log, holds.appended msg.commandRequest⟩, ?_, ?_⟩
    · intro record member
      rcases List.mem_append.mp member with member | member
      · exact Or.inl member
      · rw [List.mem_singleton.mp member]
        exact Or.inr rfl
    · rw [if_pos write, List.map_append, dataAfter, List.foldl_append, agrees.data]
      rfl
  · rename_i read
    refine ⟨w', records, stepped, running, plain, left.trans data, ⟨log', log, holds⟩,
      fun record => Or.inl, ?_⟩
    rw [if_neg read, agrees.data]

/-- The records of a log after an iteration: the old ones, and no other than that of its request. -/
def RecordsOf (records : List PersistRecord) (event : WorkerEvent ℚ) (records' : List PersistRecord) :
    Prop :=
  ∀ record ∈ records', record ∈ records ∨
    ∃ msg, event.message = some (.request msg) ∧ record.request = msg.commandRequest

/-- **One iteration** keeps store and log in agreement, but a `FLUSHALL` that deletes a key
makes them differ. -/
theorem Agrees.step {w : WorkerProcess ℚ} {records : List PersistRecord} (agrees : w.Agrees records)
    {event : WorkerEvent ℚ} (serves : Serves event) (success : event.append = .done)
    (untimed : ∀ msg, event.message = some (.request msg) → msg.command ≠ .EXPIRE) :
    (FlushesEmpty (.running w) event →
      ∃ w' records', WorkerProcess.step Id str (.running w) event = .running w' ∧
        w'.Agrees records' ∧ RecordsOf records event records') ∧
    (¬ FlushesEmpty (.running w) event → ¬ Recovered (WorkerProcess.step Id str (.running w) event)) := by
  rcases serves with idle | ⟨msg, request⟩
  · obtain ⟨w', stepped, running, log, store⟩ := step_exact str agrees.running (Or.inl idle) success
    simp only [handled, idle] at log store
    obtain ⟨data, plain⟩ := plain_left agrees.plain store
    obtain ⟨log', known, holds⟩ := agrees.logged
    have finds : FlushesEmpty (.running w) event := by simp only [FlushesEmpty, idle]
    exact ⟨fun _ => ⟨w', records, stepped, ⟨running, plain, ⟨log', log.trans known, holds⟩,
      agrees.untimed, data.trans agrees.data⟩, fun record => Or.inl⟩, fun flushed => absurd finds flushed⟩
  · have timeless := untimed msg request
    obtain ⟨w', records', stepped, running, plain, data, logged, listed, made⟩ :=
      agrees.served str request success timeless
    have untimed' : ∀ record ∈ records', record.request.command ≠ .EXPIRE := by
      intro record member
      rcases listed record member with old | new
      · exact agrees.untimed record old
      · rw [new]
        exact timeless
    have records : RecordsOf records event records' := fun record member =>
      (listed record member).imp_right fun new => ⟨msg, request, new⟩
    rw [stepped]
    by_cases flush : msg.command = .FLUSHALL ∧ msg.args = []
    · -- The store is empty now, and the log makes what the store held before.
      have emptied : w'.store.data = Dict.empty := by
        rw [data, WorkerRequest.commandRequest, flush.1, flush.2]
        rfl
      rw [isWrite_other (by simp [WorkerRequest.commandRequest, flush.1])
        (by simp [WorkerRequest.commandRequest, flush.1]) timeless, if_neg Bool.false_ne_true] at made
      have finds : FlushesEmpty (.running w) event ↔ w.store.data = Dict.empty := by
        simp only [FlushesEmpty, request, flush.1, flush.2, true_implies]
      rw [finds]
      refine ⟨fun empty => ⟨w', records', rfl, ⟨running, plain, logged, untimed', ?_⟩, records⟩, ?_⟩
      · rw [emptied, made, empty]
      · rintro nonempty ⟨v, log, ⟨⟩, known, same⟩
        refine nonempty (Dict.eq_empty_of_get? fun k => ?_)
        obtain ⟨log', known', holds⟩ := logged
        cases known.symm.trans known'
        have back := same (fun _ => Clock.still 0) k
        rw [(replay_whole holds untimed' _).1, made, emptied] at back
        exact back
    · have finds : FlushesEmpty (.running w) event := by
        simp only [FlushesEmpty, request]
        exact fun command args => absurd ⟨command, args⟩ flush
      refine ⟨fun _ => ⟨w', records', rfl, ⟨running, plain, logged, untimed', ?_⟩, records⟩,
        fun flushed => absurd finds flushed⟩
      rw [data, made]
      split
      · rfl
      · rename_i read
        exact dataCommand_unwritten timeless (fun logs => read ((isWrite_iff Id rfl).mpr logs)) flush _

/-! ## Whole runs -/

/-- The event brings no `EXPIRE`, and its log append succeeds. -/
def UntimedLogged (event : WorkerEvent ℚ) : Prop :=
  Serves event ∧ event.append = .done ∧
    ∀ msg, event.message = some (.request msg) → msg.command ≠ .EXPIRE

/-- A worker starts with what the records in its log make. -/
theorem start_agrees (records : List PersistRecord)
    (untimed : ∀ record ∈ records, record.request.command ≠ .EXPIRE) (fsyncPolicy : FsyncPolicy)
    (fsyncEveryN : Int) (clocks : Nat → Clock ℚ) (now : ℚ) :
    ∃ w, start Id (some (AofPersistence.opened (records.flatMap PersistRecord.line) fsyncPolicy
      fsyncEveryN)) clocks now = .ok w ∧ w.Agrees records := by
  set log := AofPersistence.opened (records.flatMap PersistRecord.line) fsyncPolicy fsyncEveryN
  have holds : log.Holds records := ⟨rfl, rfl⟩
  obtain ⟨data, plain⟩ := replay_whole holds untimed clocks
  exact ⟨atLoop _ (some log) now, rfl, rfl, plain, ⟨log, rfl, holds⟩, untimed, data⟩

/-- **What the log gives back.** For a worker without `EXPIRE` whose log appends succeed, on a
log that earlier sessions wrote: a restart after any prefix of the run gives back exactly what the
store holds, if and only if no `FLUSHALL` deletes a key. -/
theorem recovered_iff (sessions : List Session)
    (untimed : ∀ request ∈ sessions.flatMap Session.requests, request.command ≠ .EXPIRE)
    (fsyncPolicy : FsyncPolicy) (fsyncEveryN : Int) (clocks : Nat → Clock ℚ) (now : ℚ)
    (events : List (WorkerEvent ℚ)) (logged : ∀ event ∈ events, UntimedLogged event) :
    let log := some (AofPersistence.opened (writeSessions [] sessions).2 fsyncPolicy fsyncEveryN)
    (∀ p, p <+: events → Recovered (run Id str log clocks now p)) ↔
      (machine Id str).Along FlushesEmpty (run Id str log clocks now []) events := by
  intro log
  set records := (writeSessions [] sessions).1 with hrecords
  have timeless : ∀ record ∈ records, record.request.command ≠ .EXPIRE := by
    intro record member
    apply untimed
    rw [← writeSessions_requests [] sessions]
    exact List.mem_map_of_mem member
  obtain ⟨w, started, agrees⟩ := start_agrees records timeless fsyncPolicy fsyncEveryN clocks now
  have begins : start Id log clocks now = .ok w := by
    have written := writeSessions_file [] sessions
    rw [List.nil_append] at written
    simp only [log, written]
    exact started
  have runs (p : List (WorkerEvent ℚ)) :
      run Id str log clocks now p = (machine Id str).after (.running w) p := by
    simp only [run, begins, machine_after]
  simp only [runs, Machine.after_nil]
  refine (machine Id str).forall_prefix_along
    (I := fun status => ∃ w records, status = .running w ∧ w.Agrees records)
    ⟨w, records, rfl, agrees⟩ logged ?_ ?_ ?_
  · rintro status ⟨w, records, rfl, agrees⟩
    exact agrees.recovered
  · rintro status event ⟨w, records, rfl, agrees⟩ ⟨serves, success, untimed⟩ finds
    obtain ⟨w', records', stepped, agrees', _⟩ := (agrees.step str serves success untimed).1 finds
    exact ⟨w', records', stepped, agrees'⟩
  · rintro status event ⟨w, records, rfl, agrees⟩ ⟨serves, success, untimed⟩ finds
    exact (agrees.step str serves success untimed).2 finds

/-- A log of one `SET`. -/
def oneSet : List Session := [⟨.ALWAYS, 100, [{ command := .SET, args := ["j", "u"] }]⟩]

/-- A `DEL` of the key in the log, and then a `FLUSHALL`. -/
def deletedEvents : List (WorkerEvent ℚ) :=
  [eventAt 1 (some (.request ⟨"a", .DEL, ["j"], none⟩)) .done,
   eventAt 2 (some (.request ⟨"b", .FLUSHALL, [], none⟩)) .done]

theorem deleted_events_recovered :
    Recovered (run Id (fun _ => "") (some (AofPersistence.opened (writeSessions [] oneSet).2 .EVERY_N 100))
      (fun _ => Clock.still 0) 0 deletedEvents) := by
  refine (recovered_iff (fun _ => "") oneSet (by simp [oneSet]) .EVERY_N 100 (fun _ => Clock.still 0) 0
    deletedEvents ?_).mpr (by decide +kernel) deletedEvents List.prefix_rfl
  simp [deletedEvents, UntimedLogged, Serves, eventAt]

/-- A key that `FLUSHALL` has deleted is back after a restart. -/
theorem flushed_key_back :
    ¬ ∀ (str : Dict String String → String) (sessions : List Session)
      (fsyncPolicy : FsyncPolicy) (fsyncEveryN : Int) (clocks : Nat → Clock ℚ) (now : ℚ)
      (events : List (WorkerEvent ℚ)),
      (∀ request ∈ sessions.flatMap Session.requests, request.command ≠ .EXPIRE) →
      (∀ event ∈ events, UntimedLogged event) → ∀ p, p <+: events →
      Recovered (run Id str (some (AofPersistence.opened (writeSessions [] sessions).2 fsyncPolicy
        fsyncEveryN)) clocks now p) := by
  intro claim
  let events : List (WorkerEvent ℚ) :=
    [eventAt 1 (some (.request ⟨"a", .SET, ["k", "v"], none⟩)) .done,
     eventAt 2 (some (.request ⟨"b", .FLUSHALL, [], none⟩)) .done]
  obtain ⟨w, log, ended, known, same⟩ := claim (fun _ => "") [] .EVERY_N 100 (fun _ => Clock.still 0) 0
    events (by simp) (by simp [events, UntimedLogged, Serves, eventAt]) events List.prefix_rfl
  have reached : (run Id (fun _ => "") (some (AofPersistence.opened (writeSessions [] []).2 .EVERY_N 100))
      (fun _ => Clock.still 0) 0 events).worker?.map (fun w =>
        (w.store.data.get? "k", w.persistence.map fun log =>
          (Id.run (replayRecords Id (fresh TimingWheel.default) (fun _ => Clock.still (3 : ℚ))
            log.replay)).data.get? "k")) = some (none, some (some "v")) := by decide +kernel
  rw [ended] at reached
  simp only [WorkerStatus.worker?, known, Option.map_some, same, Prod.mk.injEq, Option.some.injEq] at reached
  rw [reached.1] at reached
  exact absurd reached.2 (by decide)

end WorkerProcess
end LiteStore
