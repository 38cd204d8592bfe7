import LiteStore.Server.Client
import LiteStore.Server.LastWrite

/-!
# Restarts

A `SET` or `DEL` whose line has been flushed is in the log, and each later start, on any number of workers,
executes it again. So a `GET` after any number of restarts is answered by it, if no `SET`, `DEL` or `EXPIRE`
of the key has been accepted since. A `FLUSHALL` is not logged: the next start brings back what it removed.
-/

namespace LiteStore
set_option autoImplicit false
open Py MemoryStore

/-! ## Records -/

/-- The request logs nothing of the key. -/
def CommandRequest.Spares (request : CommandRequest) (k : String) : Prop :=
  request.command ∈ [.SET, .DEL, .EXPIRE] → request.args.head? ≠ some k

/-- The last record of the key is this write, and no `FLUSHALL` is behind it. -/
def Saved (k : String) (v : Option String) (records : List PersistRecord) : Prop :=
  ∃ earlier record later, records = earlier ++ record :: later ∧ record.request.Writes k v ∧
    ∀ r ∈ later, r.request.Leaves k

/-- The log file holds whole records and keeps the write. -/
def Keeps (k : String) (v : Option String) (file : List Char) : Prop :=
  ∃ records, file = records.flatMap PersistRecord.line ∧ Saved k v records

section Records
variable {k : String} {v : Option String} {records : List PersistRecord}

theorem saved_of_last {record : PersistRecord} (writes : record.request.Writes k v) :
    Saved k v (records ++ [record]) := ⟨records, record, [], rfl, writes, List.forall_mem_nil _⟩

theorem Saved.append (h : Saved k v records) {more : List PersistRecord}
    (leave : ∀ r ∈ more, r.request.Leaves k) : Saved k v (records ++ more) := by
  obtain ⟨earlier, record, later, rfl, writes, behind⟩ := h
  refine ⟨earlier, record, later ++ more, ?_, writes, List.forall_mem_append.mpr ⟨behind, leave⟩⟩
  rw [List.append_assoc, List.cons_append]

/-- Replay yields the records without the ids of their requests. -/
theorem Saved.logged (h : Saved k v records) : Saved k v (records.map PersistRecord.logged) := by
  obtain ⟨earlier, record, later, rfl, writes, behind⟩ := h
  refine ⟨earlier.map .logged, record.logged, later.map .logged, ?_, writes, fun r m => ?_⟩
  · rw [List.map_append, List.map_cons]
  · obtain ⟨r', there, rfl⟩ := List.mem_map.mp m
    exact behind r' there

/-- A request that is logged is no `FLUSHALL`. -/
theorem leaves_of_logged {request : CommandRequest} {response : CommandResponse}
    (logged : isPersistedWrite request response = true) (spares : request.Spares k) : request.Leaves k := by
  refine ⟨fun flush => ?_, spares⟩
  simp [isPersistedWrite, mutates, flush] at logged

end Records

/-! ## The runtime -/

namespace LiteStoreRuntime

variable {hash : String → Nat} {rt : LiteStoreRuntime ℚ} {k : String} {v : Option String}
  {records : List PersistRecord}

/-- The replay of records that leave the key alone. -/
theorem OwnerHas.replay (h : rt.OwnerHas hash k v) (clocks : Nat → Clock ℚ)
    (leave : ∀ r ∈ records, r.request.Leaves k) :
    (Id.run (rt.replayPersistence hash clocks records)).OwnerHas hash k v := by
  induction records generalizing rt clocks with
  | nil => exact h
  | cons record records ih =>
    rw [replayPersistence_cons]
    apply ih
    · exact h.executeRouted (clocks 0) (leave record List.mem_cons_self)
    · exact fun r m => leave r (List.mem_cons_of_mem _ m)

variable (hash) in
/-- The replay of records with the write among them. -/
theorem ownerHas_replay (valid : rt.AllValid) (saved : Saved k v records) (clocks : Nat → Clock ℚ) :
    (Id.run (rt.replayPersistence hash clocks records)).OwnerHas hash k v := by
  obtain ⟨earlier, record, later, rfl, writes, behind⟩ := saved
  induction earlier generalizing rt clocks with
  | nil =>
    rw [List.nil_append, replayPersistence_cons]
    exact (ownerHas_of_writes hash valid (clocks 0) writes).replay _ behind
  | cons first earlier ih =>
    rw [List.cons_append, replayPersistence_cons]
    exact ih (valid.executeRouted hash (clocks 0) first.request) _

end LiteStoreRuntime

/-! ## Jobs -/

/-- The job logs nothing of the key. -/
def Job.Spares (job : Job) (k : String) : Prop := ∀ request, job.request = some request → request.Spares k

namespace Backend

variable {hash : String → Nat} {rowHash : Nat → String → Nat} {b : Backend} {k : String} {v : Option String}
  {records : List PersistRecord}

variable (hash) in
/-- A write is the last record behind it. -/
theorem step_written (counts : ∃ observed, b.Counted rowHash observed) (holds : b.runtime.persistence.Holds records)
    {job : Job} (flushes : job.Flushes) {request : CommandRequest} (accepted : job.request = some request)
    (writes : request.Writes k v) :
    ∃ record, ((serial hash rowHash).step b job).2.runtime.persistence.Holds (records ++ [record]) ∧
      record.request = request := by
  rcases step_log hash counts holds flushes with ⟨refused, _⟩ | ⟨request', clock, same, log⟩
  · rw [refused] at accepted
    cases accepted
  · obtain rfl : request' = request := Option.some.inj (same.symm.trans accepted)
    have write : isPersistedWrite request' (Id.run (b.runtime.executeRouted hash clock request')).1 = true := by
      rw [LiteStoreRuntime.executeRouted_exact, StoreWorker.execute_exact]
      obtain ⟨command, args, _, _⟩ := request'
      rcases writes with ⟨value, rfl, rfl, _⟩ | ⟨rfl, rfl, _⟩ <;> rfl
    rw [if_pos write] at log
    exact ⟨_, log, rfl⟩

/-- Jobs that log nothing of the key keep its write in the log. -/
theorem keeps_after (counts : ∃ observed, b.Counted rowHash observed) (holds : b.runtime.persistence.Holds records)
    (saved : Saved k v records) {jobs : List Job} (each : ∀ job ∈ jobs, job.Flushes ∧ job.Spares k) :
    Keeps k v ((serial hash rowHash).after b jobs).runtime.persistence.file := by
  obtain ⟨more, grown, logged⟩ := after_records hash counts holds fun job m => (each job m).1
  refine ⟨records ++ more, grown.file, saved.append fun r m => ?_⟩
  obtain ⟨job, there, response, accepted, write⟩ := logged r m
  exact leaves_of_logged write ((each job there).2 r.request accepted)

end Backend

/-! ## Runs of the server -/

/-- How a server is started, and what happens until it ends. -/
structure ServerRun where
  workerCount : Nat
  positive : 0 < workerCount
  clocks : Nat → Clock ℚ
  snapshotClocks : Nat → Clock ℚ
  events : List ServerEvent

namespace ServerRun
open Server

variable (hash : String → Nat) (rowHash : Nat → String → Nat)

/-- The server that is started on a log file. -/
def start (run : ServerRun) (file : List Char) : Server :=
  started hash run.workerCount run.positive file run.clocks run.snapshotClocks

/-- The jobs of the run. -/
def jobs (run : ServerRun) (file : List Char) : List Job := (run.start hash file).jobs hash rowHash run.events

/-- The log file that the run leaves. -/
def log (run : ServerRun) (file : List Char) : List Char :=
  ((Server.machine hash rowHash).after (run.start hash file) run.events).backend.runtime.persistence.file

end ServerRun

namespace Server
open Backend

variable {hash : String → Nat} {rowHash : Nat → String → Nat} {k : String} {v : Option String}

/-- One run after the other on the same file. -/
def restarts (hash : String → Nat) (rowHash : Nat → String → Nat) : Machine (List Char) ServerRun Unit where
  step file run := ((), run.log hash rowHash file)

theorem start_holds (run : ServerRun) {file : List Char} {records : List PersistRecord}
    (whole : file = records.flatMap PersistRecord.line) :
    (run.start hash file).backend.runtime.persistence.Holds records := by
  rw [ServerRun.start, started_persistence]
  exact ⟨whole, rfl⟩

/-- The log of a run is that of its jobs. -/
theorem log_jobs (run : ServerRun) (file : List Char) :
    run.log hash rowHash file = ((serial hash rowHash).after (run.start hash file).backend
      (run.jobs hash rowHash file)).runtime.persistence.file := by
  have h := run_explained hash rowHash run.workerCount run.positive file run.clocks run.snapshotClocks run.events
  exact congrArg (fun b => b.runtime.persistence.file) h.backend

theorem start_sound (run : ServerRun) (file : List Char) : (run.start hash file).backend.Sound rowHash :=
  started_sound run.workerCount run.positive file run.clocks run.snapshotClocks

/-- A run that logs nothing of the key. -/
theorem keeps_run {file : List Char} (h : Keeps k v file) (run : ServerRun)
    (each : ∀ job ∈ run.jobs hash rowHash file, job.Flushes ∧ job.Spares k) :
    Keeps k v (run.log hash rowHash file) := by
  obtain ⟨records, whole, saved⟩ := h
  rw [log_jobs]
  exact keeps_after (start_sound run file).1 (start_holds run whole) saved each

/-- A start on such a file. -/
theorem ownerHas_start {file : List Char} (h : Keeps k v file) (run : ServerRun) :
    (run.start hash file).backend.runtime.OwnerHas hash k v := by
  obtain ⟨records, whole, saved⟩ := h
  set rt : LiteStoreRuntime ℚ := LiteStoreRuntime.create run.workerCount run.positive file with hrt
  have holds : rt.persistence.Holds records := ⟨whole, rfl⟩
  have valid : rt.AllValid := LiteStoreRuntime.create_allValid run.workerCount run.positive file
  have replayed := LiteStoreRuntime.ownerHas_replay hash valid (holds.replay ▸ saved.logged) run.clocks
  exact replayed.refresh run.snapshotClocks _ _

/-- **Writes survive restarts.** After a `SET` or `DEL`, and any number of further runs of the server on the same log,
with any numbers of workers and writes and flushes that go through, a `GET` is answered by that write, if no `SET`,
`DEL` or `EXPIRE` of the key has been accepted since and, since the last start, no `FLUSHALL` either. -/
theorem logged_write_survives (hash : String → Nat) (rowHash : Nat → String → Nat) {file : List Char}
    (lineage : Lineage hash rowHash file) (first : ServerRun) {before between : List Job} {write : Job}
    {request : CommandRequest} {k : String} {v : Option String}
    (split : first.jobs hash rowHash file = before ++ write :: between)
    (flushes : ∀ job ∈ first.jobs hash rowHash file, job.Flushes)
    (written : write.request = some request) (writes : request.Writes k v)
    (spare : ∀ job ∈ between, job.Spares k) (later : List ServerRun)
    (quietly : (restarts hash rowHash).Along (fun file run =>
      ∀ job ∈ run.jobs hash rowHash file, job.Flushes ∧ job.Spares k) (first.log hash rowHash file) later)
    (last : ServerRun) {quiet after : List Job} {j : Nat} {raw : List UInt8} {connectionId requestId : String}
    {clock : Clock ℚ} {append : LogOutcome} {durationSeconds : ℚ} {query : CommandRequest}
    (reached : last.jobs hash rowHash ((restarts hash rowHash).after (first.log hash rowHash file) later) =
      quiet ++ .line j raw connectionId requestId clock append durationSeconds :: after)
    (leave : ∀ job ∈ quiet, job.Leaves k)
    (accepted : (Job.line j raw connectionId requestId clock append durationSeconds).request = some query)
    (command : query.command = .GET) (args : query.args = [k]) :
    let file' := (restarts hash rowHash).after (first.log hash rowHash file) later
    (repliesTo hash rowHash j (last.start hash file').backend (last.jobs hash rowHash file'))[
      (linesOf j quiet).length]? = some (valueResponse query v) := by
  intro file'
  -- The first run leaves the write in the file.
  have kept : Keeps k v (first.log hash rowHash file) := by
    have sound : (first.start hash file).backend.Sound rowHash := start_sound first file
    obtain ⟨records, scribed, _⟩ := lineage.scribed
    have flushed : ∀ job ∈ before, job.Flushes := fun job m => flushes job (by simp [split, m])
    obtain ⟨more, whole, _⟩ := after_records hash sound.1 (start_holds first scribed) flushed
    obtain ⟨record, grown, same⟩ := step_written hash (sound.after hash before).1 whole
      (flushes write (by simp [split])) written writes
    rw [log_jobs, split, Machine.after_append, Machine.after_cons]
    exact keeps_after ((sound.after hash before).step hash write).1 grown (saved_of_last (same ▸ writes))
      fun job m => ⟨flushes job (by simp [split, m]), spare job m⟩
  have saved : Keeps k v file' :=
    (restarts hash rowHash).invariant_along kept quietly fun file run h each => keeps_run h run each
  -- So the last start gives it to the key's owner.
  have sound : (last.start hash file').backend.Sound rowHash := start_sound last file'
  have has := ownerHas_after sound (ownerHas_start saved last) leave
  have answer := read_answered (sound.after hash quiet) has accepted command args
  rw [reached, repliesTo_append, ← sound.length_repliesTo hash, List.getElem?_append_right le_rfl,
    Nat.sub_self, repliesTo, Machine.collect, replyTo, if_pos rfl, answer]
  rfl

/-- A client sets a key and flushes all. -/
def flushedRun : ServerRun :=
  ⟨2, Nat.two_pos, fun _ => Clock.still 0, fun _ => Clock.still 0,
    [.connected none, .connected none, .dataReceived 0 [83, 69, 84, 32, 107, 32, 118, 10],
     .dataReceived 1 [70, 76, 85, 83, 72, 65, 76, 76, 10], .round 0 (Clock.still 0) .done 0,
     .round 1 (Clock.still 0) .done 0]⟩

/-- Another reads it after a restart. -/
def readingRun : ServerRun :=
  ⟨1, Nat.one_pos, fun _ => Clock.still 0, fun _ => Clock.still 0,
    [.connected none, .dataReceived 0 [71, 69, 84, 32, 107, 10], .round 0 (Clock.still 0) .done 0]⟩

set_option maxRecDepth 8000 in
theorem flushedRun_jobs :
    flushedRun.jobs Sha256.leading CountMinSketch.sha256Row [] =
      [] ++ .line 0 [83, 69, 84, 32, 107, 32, 118, 10] (nextConnectionId none 1)
        (requestIdOf (nextConnectionId none 1) 1) (Clock.still 0) .done 0 ::
      [.line 1 [70, 76, 85, 83, 72, 65, 76, 76, 10] (nextConnectionId none 2)
        (requestIdOf (nextConnectionId none 2) 1) (Clock.still 0) .done 0] := by
  rfl

/-- On any log. -/
theorem readingRun_jobs (hash : String → Nat) (rowHash : Nat → String → Nat) (file : List Char) :
    readingRun.jobs hash rowHash file =
      [] ++ .line 0 [71, 69, 84, 32, 107, 10] (nextConnectionId none 1)
        (requestIdOf (nextConnectionId none 1) 1) (Clock.still 0) .done 0 :: [] := by
  have any (b : Backend) : Server.jobs hash rowHash ⟨b, 0, []⟩ readingRun.events =
      [] ++ .line 0 [71, 69, 84, 32, 107, 10] (nextConnectionId none 1)
        (requestIdOf (nextConnectionId none 1) 1) (Clock.still 0) .done 0 :: [] := by
    rfl
  exact any _

theorem flushed_survives :
    let file := (restarts Sha256.leading CountMinSketch.sha256Row).after
      (flushedRun.log Sha256.leading CountMinSketch.sha256Row []) []
    (repliesTo Sha256.leading CountMinSketch.sha256Row 0 (readingRun.start Sha256.leading file).backend
      (readingRun.jobs Sha256.leading CountMinSketch.sha256Row file))[0]? =
      some (valueResponse ⟨.GET, ["k"], some "connection:1:1", some "connection:1"⟩ (some "v")) := by
  have set : (Job.line 0 [83, 69, 84, 32, 107, 32, 118, 10] (nextConnectionId none 1)
      (requestIdOf (nextConnectionId none 1) 1) (Clock.still 0) .done 0).request =
        some ⟨.SET, ["k", "v"], some "connection:1:1", some "connection:1"⟩ := by decide +kernel
  have flush : (Job.line 1 [70, 76, 85, 83, 72, 65, 76, 76, 10] (nextConnectionId none 2)
      (requestIdOf (nextConnectionId none 2) 1) (Clock.still 0) .done 0).request =
        some ⟨.FLUSHALL, [], some "connection:2:1", some "connection:2"⟩ := by decide +kernel
  have get : (Job.line 0 [71, 69, 84, 32, 107, 10] (nextConnectionId none 1)
      (requestIdOf (nextConnectionId none 1) 1) (Clock.still 0) .done 0).request =
        some ⟨.GET, ["k"], some "connection:1:1", some "connection:1"⟩ := by decide +kernel
  have flushes : ∀ job ∈ flushedRun.jobs Sha256.leading CountMinSketch.sha256Row [], job.Flushes := by
    rw [flushedRun_jobs]
    simp [Job.Flushes, Job.outcome, LogOutcome.flushes_done]
  have spares : ∀ job ∈ [Job.line 1 [70, 76, 85, 83, 72, 65, 76, 76, 10] (nextConnectionId none 2)
      (requestIdOf (nextConnectionId none 2) 1) (Clock.still 0) .done 0], job.Spares "k" := by
    intro job m request accepted
    obtain rfl := List.mem_singleton.mp m
    obtain rfl := Option.some.inj (flush.symm.trans accepted)
    simp [CommandRequest.Spares]
  have answered := logged_write_survives Sha256.leading CountMinSketch.sha256Row .new flushedRun flushedRun_jobs
    flushes set (.inl ⟨"v", rfl, rfl, rfl⟩) spares [] trivial readingRun (readingRun_jobs _ _ _)
    (List.forall_mem_nil _) get rfl rfl
  exact answered

end Server
end LiteStore
