import LiteStore.Persistence.PowerCut
import LiteStore.Worker.Recovery

/-!
# A worker after a power cut

The worker that is started on what a power cut has left of the log, with any first part of its unsynced bytes,
holds the data of a first part of the run, which lacks no more writes than the policy's window.
-/

namespace LiteStore
set_option autoImplicit false
open Py

namespace AofPersistence

/-! ## Appends that succeed -/

theorem sync_frame (p : AofPersistence) (fsync : Except String Unit) :
    (p.sync fsync).2.file = p.file ∧ (p.sync fsync).2.buffered = p.buffered := by
  cases fsync <;> exact ⟨rfl, rfl⟩

/-- Any call adds the lines of the records that it writes, and leaves nothing to be written out. -/
theorem performLog_file {p : AofPersistence} (clean : p.buffered = []) (c : LogCall) :
    (p.performLog c).2.file = p.file ++ (writtenRecords (p.performLog c).1.events).flatMap PersistRecord.line ∧
      (p.performLog c).2.buffered = [] := by
  have append (record : PersistRecord) (fsync : Except String Unit) :
      (p.append record (.flushed fsync)).2.file =
          p.file ++ (writtenRecords (p.appendEvents record fsync)).flatMap PersistRecord.line ∧
        (p.append record (.flushed fsync)).2.buffered = [] := by
    have written : (p.flushed record).file = p.file ++ [record].flatMap PersistRecord.line := by
      rw [flushed, clean, List.flatMap_singleton]
      rfl
    cases due : (p.flushed record).fsyncDue with
    | false =>
      simp only [AofPersistence.append, appendEvents, due]
      exact ⟨written, rfl⟩
    | true =>
      obtain ⟨file, buffered⟩ := sync_frame (p.flushed record) fsync
      simp only [AofPersistence.append, appendEvents, due]
      exact ⟨file.trans written, buffered⟩
  by_cases appends : c.op = .forceFsync
  · obtain ⟨op, fsync⟩ := c
    cases appends
    obtain ⟨file, buffered⟩ := sync_frame { p with file := p.file ++ p.buffered, buffered := [] } fsync
    refine ⟨file.trans ?_, buffered⟩
    show p.file ++ p.buffered = p.file ++ []
    rw [clean]
  · obtain ⟨record, next, _, events, left⟩ := performLog_append (p := p) appends
    rw [events, left]
    exact append record c.fsync

theorem after_calls_file {p : AofPersistence} (clean : p.buffered = []) (calls : List LogCall) :
    (logMachine.after p calls).file = p.file ++ (writtenRecords (fileEvents p calls)).flatMap PersistRecord.line := by
  induction calls generalizing p with
  | nil => exact (List.append_nil _).symm
  | cons c calls ih =>
    have events : fileEvents p (c :: calls) = (p.performLog c).1.events ++ fileEvents (p.performLog c).2 calls := rfl
    obtain ⟨first, flushed⟩ := performLog_file clean c
    have step : (logMachine.step p c).2 = (p.performLog c).2 := rfl
    rw [Machine.after_cons, step, ih flushed, first, events, writtenRecords_append, List.flatMap_append, List.append_assoc]

/-- An append of a request, and its `fsync` if one is due. -/
def appending (request : CommandRequest) : LogCall := ⟨.appendRequest request, .ok ()⟩

theorem performLog_appending (p : AofPersistence) (request : CommandRequest) :
    (p.performLog (appending request)).1.result.isOk = true ∧
      (p.performLog (appending request)).2 = (p.appended request).2 ∧
      (writtenRecords (p.performLog (appending request)).1.events).length = 1 := by
  have returns : p.appendRequest request (.flushed (.ok ())) = (.ok (p.appended request).1, (p.appended request).2) :=
    appendRequest_done p request
  have events : (writtenRecords (p.appendEvents ⟨p.nextSequence, request⟩ (.ok ()))).length = 1 := by
    unfold appendEvents
    split <;> rfl
  simp only [performLog, appending, returns]
  exact ⟨rfl, trivial, events⟩

/-- Appends that succeed write one record each. -/
theorem length_written (p : AofPersistence) {calls : List LogCall}
    (appends : ∀ c ∈ calls, ∃ request, c = appending request) :
    (writtenRecords (fileEvents p calls)).length = calls.length := by
  induction calls generalizing p with
  | nil => rfl
  | cons c calls ih =>
    obtain ⟨request, rfl⟩ := appends c List.mem_cons_self
    have events : fileEvents p (appending request :: calls) = (p.performLog (appending request)).1.events ++
      fileEvents (p.performLog (appending request)).2 calls := rfl
    rw [events, writtenRecords_append, List.length_append, (performLog_appending p request).2.2,
      ih _ fun c m => appends c (List.mem_cons_of_mem _ m), List.length_cons, Nat.add_comm]

/-- The window behind them. -/
theorem unsynced_appending (file : List Char) (policy : FsyncPolicy) {n : Int} (positive : 1 ≤ n)
    {calls : List LogCall} (appends : ∀ c ∈ calls, ∃ request, c = appending request) :
    let window := unsynced (fileEvents (opened file policy n) calls)
    (policy = .ALWAYS → window = 0) ∧ (policy = .EVERY_N → (window : Int) ≤ n - 1) := by
  rcases List.eq_nil_or_concat calls with rfl | ⟨earlier, c, rfl⟩
  · exact ⟨fun _ => rfl, fun _ => Int.sub_nonneg_of_le positive⟩
  · obtain ⟨request, rfl⟩ := appends c (by simp)
    have returns : ((logMachine.after (opened file policy n) earlier).performLog (appending request)).1.result.isOk =
        true := (performLog_appending _ request).1
    obtain ⟨whole, window⟩ := unsynced_returned positive earlier (appending request) returns
    rw [List.concat_eq_append]
    exact ⟨fun always => whole (.inr always), window⟩

end AofPersistence

namespace WorkerProcess
open AofPersistence

/-! ## The calls on the log -/

/-- The append that an iteration makes, if it makes one. -/
def logCalls (status : WorkerStatus ℚ) (event : WorkerEvent ℚ) : List LogCall :=
  match status, event.message with
  | .running w, some (.request msg) =>
    if isWrite msg.commandRequest (Id.run (executeCommand msg.commandRequest w.store event.clock)).1 then
      [appending msg.commandRequest]
    else []
  | _, _ => []

theorem logCalls_single (status : WorkerStatus ℚ) (event : WorkerEvent ℚ) : (logCalls status event).length ≤ 1 := by
  unfold logCalls
  split
  · split <;> simp
  · simp

theorem logCalls_appending (status : WorkerStatus ℚ) (event : WorkerEvent ℚ) :
    ∀ c ∈ logCalls status event, ∃ request, c = appending request := by
  unfold logCalls
  split
  · split
    · exact List.forall_mem_singleton.mpr ⟨_, rfl⟩
    · exact List.forall_mem_nil _
  · exact List.forall_mem_nil _

variable (str : Dict String String → String) {w : WorkerProcess ℚ} {records : List PersistRecord}
  {log : AofPersistence}

/-- The calls of a run on the log. -/
def runCalls (status : WorkerStatus ℚ) (events : List (WorkerEvent ℚ)) : List LogCall :=
  (machine Id str).collect logCalls status events

theorem runCalls_appending (status : WorkerStatus ℚ) (events : List (WorkerEvent ℚ)) :
    ∀ c ∈ runCalls str status events, ∃ request, c = appending request := by
  induction events generalizing status with
  | nil => exact List.forall_mem_nil _
  | cons event events ih =>
    exact List.forall_mem_append.mpr ⟨logCalls_appending status event, ih _⟩

/-- One iteration. -/
theorem Agrees.step_calls (agrees : w.Agrees records) (known : w.persistence = some log) {event : WorkerEvent ℚ}
    (logged : UntimedLogged event) (finds : FlushesEmpty (.running w) event) :
    ∃ w' records', WorkerProcess.step Id str (.running w) event = .running w' ∧ w'.Agrees records' ∧
      w'.persistence = some (logMachine.after log (logCalls (.running w) event)) := by
  obtain ⟨serves, success, untimed⟩ := logged
  obtain ⟨w', records', stepped, agrees', _⟩ := (agrees.step str serves success untimed).1 finds
  obtain ⟨w'', stepped', _, persistence, _⟩ := step_exact str agrees.running serves success
  obtain rfl : w' = w'' := WorkerStatus.running.inj (stepped.symm.trans stepped')
  refine ⟨w', records', stepped, agrees', persistence.trans ?_⟩
  unfold handled logCalls
  rcases serves with idle | ⟨msg, request⟩
  · simp only [idle]
    exact known
  · simp only [request, known, Option.map_some]
    split
    · exact congrArg some (performLog_appending log msg.commandRequest).2.1.symm
    · rfl

/-- A run. -/
theorem Agrees.run_calls (agrees : w.Agrees records) (known : w.persistence = some log)
    {events : List (WorkerEvent ℚ)} (logged : ∀ event ∈ events, UntimedLogged event)
    (finds : (machine Id str).Along FlushesEmpty (.running w) events) :
    ∃ w' records', (machine Id str).after (.running w) events = .running w' ∧ w'.Agrees records' ∧
      w'.persistence = some (logMachine.after log (runCalls str (.running w) events)) := by
  induction events generalizing w records log with
  | nil => exact ⟨w, records, rfl, agrees, known⟩
  | cons event events ih =>
    obtain ⟨v, records', stepped, agrees', known'⟩ :=
      agrees.step_calls str known (logged event List.mem_cons_self) finds.1
    have next : ((machine Id str).step (.running w) event).2 = .running v := stepped
    rw [Machine.Along, next] at finds
    obtain ⟨w', records'', reached, agrees'', known''⟩ :=
      ih agrees' known' (fun e m => logged e (List.mem_cons_of_mem _ m)) finds.2
    refine ⟨w', records'', ?_, agrees'', ?_⟩
    · rw [Machine.after_cons, next]
      exact reached
    · rw [known'', runCalls, runCalls, Machine.collect, next, Machine.after_append]

/-- What is read is the log of a first part of the run. -/
theorem exists_prefix_read (status : WorkerStatus ℚ) (events : List (WorkerEvent ℚ))
    (log : AofPersistence) {j : Nat} (bound : j ≤ (runCalls str status events).length) :
    ∃ p, p <+: events ∧ (runCalls str status p).length = j ∧
      writtenRecords (fileEvents log (runCalls str status p)) =
        (writtenRecords (fileEvents log (runCalls str status events))).take j := by
  obtain ⟨p, sub, count⟩ := (machine Id str).exists_prefix_collect logCalls_single status events bound
  refine ⟨p, sub, count, ?_⟩
  obtain ⟨rest, rfl⟩ := sub
  have size := length_written log (runCalls_appending str status p)
  have parts : runCalls str status (p ++ rest) =
      runCalls str status p ++ runCalls str ((machine Id str).after status p) rest := Machine.collect_append ..
  have count : (runCalls str status p).length = j := count
  rw [parts, fileEvents_append, writtenRecords_append, List.take_left' (size.trans count)]

/-- **Recovery after a power cut.** For a worker without `EXPIRE` whose log appends succeed and whose `FLUSHALL`s
find nothing to delete, on a log that earlier sessions wrote: whatever first part of the unsynced bytes a power cut
leaves, a worker that is started on that log holds the data of a first part of the run. Under `ALWAYS` no write is
missing from that part, and under `EVERY_N` at most `n - 1` are. -/
theorem power_cut_recovers (sessions : List Session)
    (untimed : ∀ request ∈ sessions.flatMap Session.requests, request.command ≠ .EXPIRE)
    (policy : FsyncPolicy) {n : Int} (positive : 1 ≤ n) (clocks : Nat → Clock ℚ) (now : ℚ)
    (events : List (WorkerEvent ℚ)) (logged : ∀ event ∈ events, UntimedLogged event)
    (finds : (machine Id str).Along FlushesEmpty
      (run Id str (some (.opened (writeSessions [] sessions).2 policy n)) clocks now []) events) :
    let log := AofPersistence.opened (writeSessions [] sessions).2 policy n
    let calls := runCalls str (run Id str (some log) clocks now [])
    ∀ left, (disk log.file (fileEvents log (calls events))).Leaves left →
      ∃ p w, p <+: events ∧ run Id str (some log) clocks now p = .running w ∧
        (∀ (clocks' : Nat → Clock ℚ) (now' : ℚ), ∃ w', start Id (some (.opened left policy n)) clocks' now' = .ok w' ∧
          w'.store.data = w.store.data) ∧
        (policy = .ALWAYS → (calls p).length = (calls events).length) ∧
        (policy = .EVERY_N → ((calls events).length : Int) ≤ (calls p).length + (n - 1)) := by
  intro log calls left leaves
  set old := (writeSessions [] sessions).1 with hold
  have written : log.file = old.flatMap PersistRecord.line := writeSessions_file [] sessions
  have timeless : ∀ record ∈ old, record.request.command ≠ .EXPIRE := by
    intro record member
    apply untimed
    rw [← writeSessions_requests [] sessions]
    exact List.mem_map_of_mem member
  obtain ⟨w₀, started, agrees⟩ := start_agrees old timeless policy n clocks now
  have started : start Id (some log) clocks now = .ok w₀ := by
    rw [← written] at started
    exact started
  have runs (p : List (WorkerEvent ℚ)) : run Id str (some log) clocks now p = (machine Id str).after (.running w₀) p := by
    simp only [run, started, machine_after]
  have begins : run Id str (some log) clocks now [] = .running w₀ := runs []
  have known : w₀.persistence = some log := by
    obtain rfl := Except.ok.inj started
    rfl
  change (machine Id str).Along FlushesEmpty (run Id str (some log) clocks now []) events at finds
  simp only [calls, begins] at leaves finds ⊢
  -- Replay reads the old records and the first of the new ones.
  have lines : log.file = linesText (old.map PersistRecord.text) := written.trans (linesText_text old).symm
  rw [lines] at leaves
  have flat : ∀ line ∈ old.map PersistRecord.text, OneLine line := oneLine_text (List.forall_mem_nil _) old
  obtain ⟨j, read, bound, covered⟩ := replayText_left flat leaves
  have size := length_written log (runCalls_appending str (.running w₀) events)
  rw [size] at bound
  -- Those are the records of a first part of the run.
  obtain ⟨p, sub, count, first⟩ := exists_prefix_read str (.running w₀) events log bound
  obtain ⟨rest, rfl⟩ := sub
  obtain ⟨w, records, reached, agrees', known'⟩ :=
    agrees.run_calls str known (fun e m => logged e (List.mem_append_left _ m)) finds.left
  have window := unsynced_appending (writeSessions [] sessions).2 policy positive
    (runCalls_appending str (.running w₀) (p ++ rest))
  have enough := covered _ [] (List.append_nil _).symm
  rw [size] at enough
  set log' := logMachine.after log (runCalls str (.running w₀) p) with hlog'
  have whole : log'.file = (old ++ writtenRecords (fileEvents log (runCalls str (.running w₀) p))).flatMap
      PersistRecord.line := by
    rw [hlog', after_calls_file rfl, written, List.flatMap_append]
  have same : replayText left = log'.replay := by
    rw [replay, whole, replayText_whole, read, lineRecords_text, ← first, List.map_append]
  refine ⟨p, w, List.prefix_append _ _, (runs p).trans reached, fun clocks' now' => ⟨_, rfl, ?_⟩, ?_, ?_⟩
  · obtain ⟨log'', there, holds⟩ := agrees'.logged
    obtain rfl : log' = log'' := Option.some.inj (known'.symm.trans there)
    have recovered := (replay_whole holds agrees'.untimed clocks').1
    rw [← same] at recovered
    exact recovered.trans agrees'.data.symm
  · intro always
    have none : unsynced (fileEvents log (runCalls str (.running w₀) (p ++ rest))) = 0 := window.1 always
    omega
  · intro every
    have some : (unsynced (fileEvents log (runCalls str (.running w₀) (p ++ rest))) : Int) ≤ n - 1 := window.2 every
    omega

/-- Three writes and a read; with a window of two the power goes inside the last record. -/
def cutEvents : List (WorkerEvent ℚ) :=
  [eventAt 1 (some (.request ⟨"a", .SET, ["k", "v"], none⟩)) .done,
   eventAt 2 (some (.request ⟨"b", .DEL, ["j"], none⟩)) .done,
   eventAt 3 (some (.request ⟨"c", .GET, ["k"], none⟩)) .done,
   eventAt 4 (some (.request ⟨"d", .SET, ["k", "w"], none⟩)) .done]

theorem cut_recovers :
    let log := AofPersistence.opened (writeSessions [] oneSet).2 .EVERY_N 2
    let calls := runCalls (fun _ => "") (run Id (fun _ => "") (some log) (fun _ => Clock.still 0) 0 [])
    let left := (logMachine.after log (calls cutEvents)).file.take 180
    ∃ p w, p <+: cutEvents ∧ run Id (fun _ => "") (some log) (fun _ => Clock.still 0) 0 p = .running w ∧
      (∀ (clocks' : Nat → Clock ℚ) (now' : ℚ), ∃ w', start Id (some (.opened left .EVERY_N 2)) clocks' now' = .ok w' ∧
        w'.store.data = w.store.data) ∧
      (FsyncPolicy.EVERY_N = .ALWAYS → (calls p).length = (calls cutEvents).length) ∧
      (FsyncPolicy.EVERY_N = .EVERY_N → ((calls cutEvents).length : Int) ≤ (calls p).length + (2 - 1)) := by
  refine power_cut_recovers (fun _ => "") oneSet (by simp [oneSet]) .EVERY_N (by decide) (fun _ => Clock.still 0) 0
    cutEvents ?_ (by decide +kernel) _ ⟨by decide +kernel, by decide +kernel⟩
  simp [cutEvents, UntimedLogged, Serves, eventAt]

end WorkerProcess
end LiteStore
