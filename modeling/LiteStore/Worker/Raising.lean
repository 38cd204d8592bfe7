import LiteStore.Commands.Overflow
import LiteStore.Worker.Answers

/-!
# A worker with float clocks

A worker answers every request exactly when each of its steps fits the state before it: the readings and the
seconds of its replay, its commands and its passes are in range, its appends raise nothing, and neither does
the `fsync` of its `close`.
-/

namespace LiteStore
set_option autoImplicit false
open Py Binary64 MemoryStore

/-! ## Runs of a store -/

namespace StoreEvent

variable {s : MemoryStore Number}

/-- A step returns when it fits. -/
theorem next_returns (h : s.Coherent) (event : StoreEvent) : (∃ s', event.next s = .ok s') ↔ event.Fits s := by
  cases event with
  | command request clock =>
    exact (returns_then (f := fun r => pure r.2) fun _ => ⟨_, rfl⟩).trans (executeCommand_fits h request clock)
  | processExpirations clock now =>
    apply (returns_then (f := fun r : Nat × MemoryStore Number => pure r.2) fun _ => ⟨_, rfl⟩).trans
    exact (returns_of_ok fun _ => drainDue_ok).trans ticked_iff
  | snapshot clock =>
    apply (returns_then (f := fun r : Dict String String × MemoryStore Number => pure r.2) fun _ => ⟨_, rfl⟩).trans
    exact (returns_of_ok fun _ => snapshot_ok).trans ticked_iff

/-- **A run** returns when each step fits the store before it. -/
theorem run_returns (h : s.Coherent) (events : List StoreEvent) :
    (∃ s', events.foldlM (fun s event => event.next s) s = .ok s') ↔
      Throughout (fun s event => event.Fits s) s events := by
  induction events generalizing s with
  | nil => exact iff_of_true ⟨s, rfl⟩ trivial
  | cons event events ih =>
    simp only [List.foldlM_cons, bind_eq_ok, Throughout, ← next_returns h event]
    rw [exists_comm]
    simp only [exists_and_left]
    apply returns_and.trans
    exact and_congr_right fun _ => forall₂_congr fun s' stepped => ih (next_coherent h stepped)

theorem run_coherent (h : s.Coherent) {events : List StoreEvent} {s' : MemoryStore Number}
    (done : events.foldlM (m := Except PyError) (fun s event => event.next s) s = .ok s') : s'.Coherent := by
  induction events generalizing s with
  | nil =>
    cases done
    exact h
  | cons event events ih =>
    obtain ⟨s'', stepped, ran⟩ := bind_eq_ok.mp done
    exact ih (next_coherent h stepped) ran

end StoreEvent

namespace WorkerProcess

/-! ## The conditions -/

/-- The steps of a replay. -/
def replaySteps (clocks : Nat → Clock Number) : List PersistRecord → List StoreEvent
  | [] => []
  | record :: records => StoreEvent.replay record.request (clocks 0) ++ replaySteps (fun i => clocks (i + 1)) records

/-- The readings and the seconds of the replay. -/
def StartFits (persistence : Option AofPersistence) (clocks : Nat → Clock Number) : Prop :=
  StoreEvent.Throughout (fun s event => event.Fits s) (fresh TimingWheel.default)
    (replaySteps clocks (persistence.elim [] AofPersistence.replay))

/-- The request is to be logged: a `SET` or `DEL` of the right arity, or an `EXPIRE` with integer seconds of a
key that is live at its first reading. -/
def Logged (request : CommandRequest) (s : MemoryStore Number) (clock : Clock Number) : Prop :=
  match request.command, request.args with
  | .SET, [_, _] => True
  | .DEL, [_] => True
  | .EXPIRE, [key, secondsRaw] => (parseTtlSeconds secondsRaw).isSome = true ∧ s.Live (clock 0) key
  | _, _ => False

/-- The readings and arguments of a message, and the outcome of the system calls on the log. -/
def MessageFits (w : WorkerProcess Number) (event : WorkerEvent Number) : Prop :=
  match event.message with
  | none => True
  | some (.request msg) => CommandFits msg.commandRequest w.store event.clock ∧
      ∀ log, w.persistence = some log → Logged msg.commandRequest w.store event.clock →
        ¬ log.Raises msg.commandRequest event.append
  | some (.control msg) =>
    if msg.action = "shutdown" then
      ∀ log, w.persistence = some log → log.ClosingSyncs → event.append.result.isOk = true
    else msg.action = "snapshot" → w.store.ReadingFits (event.clock 0) (event.clock 0)

/-- The reading of the periodic pass, if it is time for one. -/
def PassFits (w : WorkerProcess Number) (event : WorkerEvent Number) : Prop :=
  Timestamp.tenthSince event.now w.lastExpiration = true → w.store.ReadingFits (event.passClock 0) (event.passClock 0)

variable (str : Dict String String → String)

/-- Both steps of an iteration fit the worker before them. -/
def IterationFits (status : WorkerStatus Number) (event : WorkerEvent Number) : Prop :=
  ∀ w, status = .running w → w.MessageFits event ∧
    ∀ w', w.handleMessage (Except PyError) str event = .ok w' → w'.PassFits event

/-! ## Start -/

theorem replayRecords_eq (s : MemoryStore Number) (clocks : Nat → Clock Number) (records : List PersistRecord) :
    replayRecords (Except PyError) s clocks records =
      (replaySteps clocks records).foldlM (fun s event => event.next s) s := by
  induction records generalizing s clocks with
  | nil => rfl
  | cons record records ih =>
    rw [replayRecords, replaySteps, List.foldlM_append, StoreEvent.applyReplayRequest_eq]
    exact bind_congr fun s' => ih s' _

theorem start_fits (persistence : Option AofPersistence) (clocks : Nat → Clock Number) (now : Number) :
    (∃ w, start (Except PyError) persistence clocks now = .ok w) ↔ StartFits persistence clocks := by
  apply (returns_then (f := fun s => pure (atLoop s persistence now)) fun _ => ⟨_, rfl⟩).trans
  rw [replayRecords_eq]
  exact StoreEvent.run_returns (fresh_coherent (TimingWheel.fresh_indexed _ _ _ _) rfl) _

theorem start_coherent {persistence : Option AofPersistence} {clocks : Nat → Clock Number} {now : Number}
    {w : WorkerProcess Number} (started : start (Except PyError) persistence clocks now = .ok w) :
    w.store.Coherent := by
  obtain ⟨s, replayed, done⟩ := bind_eq_ok.mp started
  cases done
  change replayRecords (Except PyError) _ _ _ = .ok s at replayed
  rw [replayRecords_eq] at replayed
  exact StoreEvent.run_coherent (fresh_coherent (TimingWheel.fresh_indexed _ _ _ _) rfl) replayed

/-! ## One iteration -/

variable {w w' : WorkerProcess Number} {event : WorkerEvent Number}

/-- The requests that a worker logs. -/
theorem logged_iff {s : MemoryStore Number} (h : s.Coherent) {request : CommandRequest} {clock : Clock Number}
    (fits : CommandFits request s clock) : Writes (Except PyError) request s clock ↔ Logged request s clock := by
  obtain ⟨command, args, _, _⟩ := request
  cases command
  case EXPIRE =>
    rcases args with _ | ⟨key, _ | ⟨secondsRaw, _ | ⟨more, rest⟩⟩⟩
    case cons.cons.nil =>
      refine and_congr_right fun parsed => ?_
      obtain ⟨n, parsed⟩ := Option.isSome_iff_exists.mp parsed
      have ticked := ticked_iff.mpr (fits n parsed).1
      constructor
      · rintro ⟨p, passed, held⟩
        obtain ⟨_, rfl⟩ := drainDue_ok.mp passed
        exact (passed_contains h (clock 0)).mp held
      · intro live
        exact ⟨_, drainDue_ok.mpr ⟨ticked, rfl⟩, (passed_contains h (clock 0)).mpr live⟩
    all_goals exact Iff.rfl
  all_goals
    rcases args with _ | ⟨key, _ | ⟨value, _ | ⟨more, rest⟩⟩⟩ <;> exact Iff.rfl

theorem close_isOk (log : AofPersistence) (fsync : Except String Unit) :
    closeLog (some log) fsync = .ok () ↔ (log.ClosingSyncs → fsync.isOk = true) := by
  show (log.close fsync).mapError PyError.osError = .ok () ↔ _
  unfold AofPersistence.close
  split
  · rename_i syncs
    rw [imp_iff_right syncs]
    cases fsync with
    | error text => exact iff_of_false (fun closed => by cases closed) Bool.false_ne_true
    | ok _ => exact iff_of_true rfl rfl
  · rename_i covered
    exact iff_of_true rfl fun syncs => absurd syncs covered

/-- **A message** is handled when it fits. -/
theorem handleMessage_fits (h : w.store.Coherent) (event : WorkerEvent Number) :
    (∃ w', w.handleMessage (Except PyError) str event = .ok w') ↔ w.MessageFits event := by
  unfold handleMessage MessageFits
  rcases event.message with _ | msg | msg
  · exact iff_of_true ⟨w, rfl⟩ trivial
  · dsimp only
    rw [handleRequest_ok_iff, executeCommand_fits h]
    refine and_congr_right fun fits => ?_
    simp only [logged_iff h fits]
  · dsimp only
    unfold handleControl
    split
    · apply (returns_then (f := fun _ => pure _) fun _ => ⟨_, rfl⟩).trans
      cases w.persistence with
      | none => exact iff_of_true ⟨(), rfl⟩ (by rintro log ⟨⟩)
      | some log =>
        simp only [Option.some.injEq, forall_eq', ← close_isOk]
        exact ⟨fun ⟨⟨⟩, closed⟩ => closed, fun closed => ⟨(), closed⟩⟩
    · split
      · rename_i snapshot
        rw [imp_iff_right snapshot]
        apply (returns_then (f := fun _ => pure _) fun _ => ⟨_, rfl⟩).trans
        exact (returns_of_ok fun _ => snapshot_ok).trans ticked_iff
      · rename_i other
        exact iff_of_true ⟨w, rfl⟩ fun snapshot => absurd snapshot other

theorem handleMessage_coherent (h : w.store.Coherent)
    (done : w.handleMessage (Except PyError) str event = .ok w') : w'.store.Coherent := by
  rcases message : event.message with _ | msg | msg <;> simp only [handleMessage, message] at done
  · cases done
    exact h
  · obtain ⟨r, executed, _, store, _⟩ := handleRequest_ok (Except PyError) done
    rw [store]
    exact executeCommand_coherent h executed
  · unfold handleControl at done
    split at done
    · obtain ⟨_, _, done⟩ := bind_eq_ok.mp done
      cases done
      exact h
    · split at done
      · obtain ⟨r, taken, done⟩ := bind_eq_ok.mp done
        cases done
        exact h.snapshot taken
      · cases done
        exact h

/-- **The pass** behind it. -/
theorem expirePeriodically_fits (w : WorkerProcess Number) (event : WorkerEvent Number) :
    (∃ w', w.expirePeriodically (Except PyError) event = .ok w') ↔ w.PassFits event := by
  unfold expirePeriodically PassFits
  split
  · rename_i due
    rw [imp_iff_right due]
    apply (returns_then (f := fun _ => pure _) fun _ => ⟨_, rfl⟩).trans
    exact (returns_of_ok fun _ => drainDue_ok).trans ticked_iff
  · rename_i early
    exact iff_of_true ⟨w, rfl⟩ fun due => absurd due early

theorem expirePeriodically_coherent (h : w.store.Coherent)
    (done : w.expirePeriodically (Except PyError) event = .ok w') : w'.store.Coherent := by
  unfold expirePeriodically at done
  split at done
  · obtain ⟨r, passed, done⟩ := bind_eq_ok.mp done
    cases done
    exact h.drainDue passed
  · cases done
    exact h

/-- A worker that runs has a coherent store. -/
def StatusCoherent (status : WorkerStatus Number) : Prop := ∀ w, status = .running w → w.store.Coherent

theorem step_coherent {status : WorkerStatus Number} (h : StatusCoherent status) (event : WorkerEvent Number) :
    StatusCoherent ((machine (Except PyError) str).step status event).2 := by
  intro v running
  change step (Except PyError) str status event = .running v at running
  cases status with
  | ended w => cases running
  | crashed e responses => cases running
  | running w =>
    simp only [step] at running
    cases handled : w.handleMessage (Except PyError) str event with
    | error e =>
      rw [handled] at running
      cases running
    | ok w' =>
      simp only [handled] at running
      cases passed : w'.expirePeriodically (Except PyError) event with
      | error e =>
        rw [passed] at running
        cases running
      | ok w'' =>
        simp only [passed] at running
        split at running
        · cases running
          exact expirePeriodically_coherent (handleMessage_coherent str (h w rfl) handled) passed
        · cases running

/-- **An iteration** raises nothing when it fits. -/
theorem unfailingRun_iff {status : WorkerStatus Number} (h : StatusCoherent status) (event : WorkerEvent Number) :
    UnfailingRun (Except PyError) str status event ↔ IterationFits str status event := by
  refine forall₂_congr fun w running => ?_
  rw [← handleMessage_fits str (h w running)]
  simp only [Unfailing, expirePeriodically_fits]
  exact returns_and

/-! ## Whole runs -/

/-- **One answer for each request.** A worker process that is given requests and then shut down answers each of
them once, in order and under its id, closes its log and ends, if and only if its replay fits and every iteration
that it reaches does. -/
theorem answers_iff (persistence : Option AofPersistence) (clocks : Nat → Clock Number) (now : Number)
    (events : List (WorkerEvent Number)) (last : WorkerEvent Number) (serves : ∀ event ∈ events, Serves event)
    (shutdown : last.message = some shutdownMessage) :
    Answered (requestsOf events) (run (Except PyError) str persistence clocks now (events ++ [last])) ↔
      StartFits persistence clocks ∧ ∀ w, start (Except PyError) persistence clocks now = .ok w →
        (machine (Except PyError) str).Along (IterationFits str) (.running w) (events ++ [last]) := by
  have along {w : WorkerProcess Number} (started : start (Except PyError) persistence clocks now = .ok w) :
      (machine (Except PyError) str).Along (UnfailingRun (Except PyError) str) (.running w) (events ++ [last]) ↔
        (machine (Except PyError) str).Along (IterationFits str) (.running w) (events ++ [last]) := by
    apply (machine (Except PyError) str).along_congr (I := StatusCoherent)
    · rintro v ⟨⟩
      exact start_coherent started
    · exact fun status event h => step_coherent str h event
    · exact fun status event h => unfailingRun_iff str h event
  rw [answered_iff (Except PyError) str persistence clocks now serves shutdown, ← start_fits persistence clocks now]
  apply returns_and.trans
  exact and_congr_right fun _ => forall₂_congr fun w started => along started

/-- An iteration at time zero. -/
def eventAtZero (message : QueueMessage) (append : LogOutcome) : WorkerEvent Number :=
  ⟨some message, Clock.still 0, append, 0, Clock.still 0⟩

/-- A `SET` and a `GET`. -/
def servedEvents : List (WorkerEvent Number) :=
  [eventAtZero (.request ⟨"a", .SET, ["k", "v"], none⟩) .done,
   eventAtZero (.request ⟨"b", .GET, ["k"], none⟩) .done]

theorem served_events_answered :
    Answered [⟨"a", .SET, ["k", "v"], none⟩, ⟨"b", .GET, ["k"], none⟩]
      (run (Except PyError) (fun _ => "") (some (AofPersistence.opened [] .EVERY_N 100)) (fun _ => Clock.still 0) 0
        (servedEvents ++ [eventAtZero shutdownMessage .done])) := by
  refine (answers_iff (fun _ => "") (some (AofPersistence.opened [] .EVERY_N 100)) (fun _ => Clock.still 0) 0
    servedEvents (eventAtZero shutdownMessage .done) ?_ rfl).mpr ⟨trivial, fun w started => ?_⟩
  · simp [servedEvents, Serves, eventAtZero]
  -- Where zero is in range and the last pass was at zero, an iteration at zero fits.
  have fits {status : WorkerStatus Number} {message : QueueMessage} (zero : status.worker?.all (fun v =>
      decide (InRange 0 (v.store.timingWheel.originTimestamp.getD 0) v.store.timingWheel.tickSeconds ∧
        v.lastExpiration = 0)) = true)
      (known : message ∈ [shutdownMessage, .request ⟨"a", .SET, ["k", "v"], none⟩,
        .request ⟨"b", .GET, ["k"], none⟩]) : IterationFits (fun _ => "") status (eventAtZero message .done) := by
    rintro v rfl
    obtain ⟨range, last⟩ := of_decide_eq_true zero
    have quiet (v' : WorkerProcess Number) (same : v'.lastExpiration = v.lastExpiration) :
        v'.PassFits (eventAtZero message .done) := by
      intro due
      rw [same, last] at due
      exact absurd due (show ¬ Timestamp.tenthSince (0 : Number) 0 = true by decide +kernel)
    simp only [List.mem_cons, List.not_mem_nil, or_false] at known
    rcases known with rfl | rfl | rfl
    · refine ⟨fun _ _ _ => rfl, fun v' handled => quiet v' ?_⟩
      rw [((handle_shutdown (Except PyError) (fun _ => "") rfl).mp handled).2]
    · refine ⟨⟨range, fun log _ _ => log.not_raises_done _⟩, fun v' handled => quiet v' ?_⟩
      obtain ⟨_, _, _, _, _, same, _⟩ := handleRequest_ok (Except PyError) handled
      exact same
    · refine ⟨⟨range, fun log _ _ => log.not_raises_done _⟩, fun v' handled => quiet v' ?_⟩
      obtain ⟨_, _, _, _, _, same, _⟩ := handleRequest_ok (Except PyError) handled
      exact same
  obtain rfl := Except.ok.inj started
  exact ⟨fits (by decide +kernel) (by simp), fits (by decide +kernel) (by simp),
    fits (by decide +kernel) (by simp), trivial⟩

/-- A `SET` whose log append fails on a full disk is never answered. -/
theorem failed_append_unanswered :
    ¬ ∀ (str : Dict String String → String) (persistence : Option AofPersistence) (clocks : Nat → Clock Number)
      (now : Number) (events : List (WorkerEvent Number)) (last : WorkerEvent Number),
      (∀ event ∈ events, Serves event) → last.message = some shutdownMessage →
      Answered (requestsOf events) (run (Except PyError) str persistence clocks now (events ++ [last])) := by
  intro claim
  have answered := claim (fun _ => "") (some (AofPersistence.opened [] .EVERY_N 100)) (fun _ => Clock.still 0) 0
    [eventAtZero (.request ⟨"a", .SET, ["k", "v"], none⟩) (.unflushed "[Errno 28] No space left on device" 0 0)]
    (eventAtZero shutdownMessage .done) (by simp [Serves, eventAtZero]) rfl
  obtain ⟨w, ended, _⟩ := answered
  have crashed : (match run (Except PyError) (fun _ => "") (some (AofPersistence.opened [] .EVERY_N 100))
      (fun _ => Clock.still 0) 0
      ([eventAtZero (.request ⟨"a", .SET, ["k", "v"], none⟩) (.unflushed "[Errno 28] No space left on device" 0 0)] ++
        [eventAtZero shutdownMessage .done]) with
    | .ended _ => true
    | _ => false) = false := by decide +kernel
  rw [ended] at crashed
  cases crashed

end WorkerProcess
end LiteStore
