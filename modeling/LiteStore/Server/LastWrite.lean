import LiteStore.Commands.Exact
import LiteStore.Server.Serial
import LiteStore.Store.Kept

/-!
# Reading the last write

A `GET` from any connection is answered by the latest `SET` or `DEL` of its key on any connection, in the
order of the serial execution, if no `EXPIRE` of the key and no `FLUSHALL` came in between. Other keys may
be set, deleted, given deadlines and expire, lines may be refused, appends may fail and the metrics may be
refreshed, at any readings of the clock.
-/

namespace LiteStore
set_option autoImplicit false
open Py MemoryStore

/-! ## One store -/

namespace MemoryStore

/-- The call is no write of the key. -/
def Leaves (k : String) (c : StoreCall) : Prop :=
  (∀ value, c.op ≠ .set k value) ∧ c.op ≠ .delete k ∧ (∀ n, c.op ≠ .expire k n) ∧ c.op ≠ .flush

/-- The key has this value, or none, and no deadline. -/
structure Settled (k : String) (v : Option String) (s : MemoryStore ℚ) : Prop where
  valid : s.Valid
  value : s.data.get? k = v
  untimed : s.expiresAt.get? k = none

variable {k : String} {v : Option String} {s : MemoryStore ℚ}

theorem settled_of_absent (valid : s.Valid) (absent : s.data.get? k = none) : Settled k none s := by
  refine ⟨valid, absent, ?_⟩
  cases timed : s.expiresAt.get? k with
  | none => rfl
  | some d =>
    obtain ⟨v, held⟩ := valid.held k d timed
    rw [absent] at held
    cases held

/-- A call that does not write the key. -/
theorem Settled.step (h : Settled k v s) {c : StoreCall} (leaves : Leaves k c) :
    Settled k v (s.perform c).2 := by
  obtain ⟨unset, undeleted, untimed, unflushed⟩ := leaves
  have valid := perform_valid h.valid c
  cases v with
  | none =>
    refine settled_of_absent valid (Option.eq_none_iff_forall_ne_some.mpr fun v found => ?_)
    have before := perform_data_sub h.valid unset found
    rw [h.value] at before
    cases before
  | some v =>
    have holds : Holds k v none s := ⟨h.value, h.untimed⟩
    obtain ⟨value, timed⟩ := holds.step h.valid ⟨unset, undeleted, fun n _ => untimed n, unflushed⟩
      (fun ⟨⟨n, op⟩, _⟩ => untimed n op) fun _ _ _ m => by cases m
    exact ⟨valid, value, timed⟩

theorem Settled.after (h : Settled k v s) {calls : List StoreCall} (leave : ∀ c ∈ calls, Leaves k c) :
    Settled k v (machine.after s calls) :=
  machine.invariant_along h (Machine.along_of_forall s leave) fun _ _ settled leaves => settled.step leaves

theorem perform_delete (s : MemoryStore ℚ) (k : String) (clock : Clock ℚ) :
    (s.perform ⟨.delete k, clock⟩).2 = (s.pass (clock 0)).removeIfHeld k :=
  congrArg Prod.snd (s.delete_exact clock k)

/-- A pass at any time. -/
theorem Settled.pass (h : Settled k v s) (t : ℚ) : Settled k v (s.pass t) := by
  have call : (s.perform ⟨.processExpirations (some t), Clock.still t⟩).2 = s.pass t := rfl
  rw [← call]
  exact h.step ⟨by simp, by simp, by simp, by simp⟩

end MemoryStore

/-! ## Requests -/

/-- The request writes the key: it sets this value, or deletes it. -/
def CommandRequest.Writes (request : CommandRequest) (k : String) (v : Option String) : Prop :=
  (∃ value, request.command = .SET ∧ request.args = [k, value] ∧ v = some value) ∨
    request.command = .DEL ∧ request.args = [k] ∧ v = none

/-- The request leaves the key alone. -/
def CommandRequest.Leaves (request : CommandRequest) (k : String) : Prop :=
  request.command ≠ .FLUSHALL ∧
    (request.command ∈ [.SET, .DEL, .EXPIRE] → request.args.head? ≠ some k)

/-- Its calls are no writes of the key. -/
theorem CommandRequest.Leaves.calls {request : CommandRequest} {k : String} (leaves : request.Leaves k)
    (clock : Clock ℚ) : ∀ c ∈ commandCalls request clock, MemoryStore.Leaves k c := by
  obtain ⟨command, args, _, _⟩ := request
  obtain ⟨unflushed, other⟩ := leaves
  cases command
  case MGET =>
    intro c m
    obtain ⟨key, n, rfl⟩ := mem_getCalls m
    simp [MemoryStore.Leaves]
  case FLUSHALL => exact absurd rfl unflushed
  case SET =>
    rcases args with _ | ⟨key, _ | ⟨value, _ | ⟨more, rest⟩⟩⟩
    case cons.cons.nil =>
      have apart : key ≠ k := by simpa using other
      simp [commandCalls, MemoryStore.Leaves, apart]
    all_goals simp [commandCalls]
  case DEL =>
    rcases args with _ | ⟨key, _ | ⟨more, rest⟩⟩
    case cons.nil =>
      have apart : key ≠ k := by simpa using other
      simp [commandCalls, MemoryStore.Leaves, apart]
    all_goals simp [commandCalls]
  case EXPIRE =>
    rcases args with _ | ⟨key, _ | ⟨secondsRaw, _ | ⟨more, rest⟩⟩⟩
    case cons.cons.nil =>
      have apart : key ≠ k := by simpa using other
      simp only [commandCalls]
      cases parseTtlSeconds secondsRaw <;> simp [MemoryStore.Leaves, apart]
    all_goals simp [commandCalls]
  all_goals
    rcases args with _ | ⟨key, _ | ⟨more, rest⟩⟩ <;> simp [commandCalls, MemoryStore.Leaves]

/-! ## The owner of the key -/

namespace LiteStoreRuntime

variable {hash : String → Nat} {k : String} {v : Option String} {rt : LiteStoreRuntime ℚ}

/-- The owner of the key has it so. -/
def OwnerHas (hash : String → Nat) (k : String) (v : Option String) (rt : LiteStoreRuntime ℚ) : Prop :=
  ∀ w, rt.workers.get? (rt.router.owner hash k) = some w → Settled k v w.store

/-- Another request, on any worker. -/
theorem OwnerHas.executeRouted (h : rt.OwnerHas hash k v) (clock : Clock ℚ) {request : CommandRequest}
    (leaves : request.Leaves k) : (Id.run (rt.executeRouted hash clock request)).2.OwnerHas hash k v := by
  intro w found
  rw [(executeRouted_frame hash rt clock request).1, executeRouted_workers] at found
  split at found
  · rename_i owner
    cases found
    have hosted : rt.workers.get? (rt.router.owner hash k) = some (rt.chosen hash request) := by
      rw [owner]
      exact get?_worker rt (rt.router.routeRequest_mem hash request)
    have settled := ((h _ hosted).pass (clock 0)).after (leaves.calls (clock.drop 1))
    rw [StoreWorker.execute_exact]
    show Settled k v (Id.run (executeCommand request _ _)).2
    rw [executeCommand_state]
    exact settled
  · exact h w found

variable (hash) in
/-- A write makes it so. -/
theorem ownerHas_of_writes (valid : rt.AllValid) (clock : Clock ℚ) {request : CommandRequest}
    (writes : request.Writes k v) : (Id.run (rt.executeRouted hash clock request)).2.OwnerHas hash k v := by
  have routed : (rt.router.routeRequest hash request).workerId = rt.router.owner hash k := by
    obtain ⟨command, args, _, _⟩ := request
    rcases writes with ⟨value, rfl, rfl, _⟩ | ⟨rfl, rfl, _⟩ <;> rfl
  intro w found
  rw [(executeRouted_frame hash rt clock request).1, executeRouted_workers, if_pos routed.symm] at found
  cases found
  have hosted := get?_worker rt (rt.router.routeRequest_mem hash request)
  have passed := pass_valid (valid _ _ hosted) (clock 0)
  rw [StoreWorker.execute_exact]
  show Settled k v (Id.run (executeCommand request _ _)).2
  rw [executeCommand_state]
  obtain ⟨command, args, _, _⟩ := request
  rcases writes with ⟨value, rfl, rfl, rfl⟩ | ⟨rfl, rfl, rfl⟩
  · refine ⟨run_valid passed _, ?_, ?_⟩
    · show (put _ k value).data.get? k = some value
      rw [put_data, if_pos rfl]
    · show (put _ k value).expiresAt.get? k = none
      rw [put_expiresAt, if_pos rfl]
  · refine settled_of_absent (run_valid passed _) ?_
    show (MemoryStore.perform _ ⟨.delete k, clock.drop 1⟩).2.data.get? k = none
    rw [perform_delete, removeIfHeld_data, if_pos rfl]

/-- A read answers so. -/
theorem OwnerHas.get (h : rt.OwnerHas hash k v) (clock : Clock ℚ) {request : CommandRequest}
    (command : request.command = .GET) (args : request.args = [k]) :
    (Id.run (rt.executeRouted hash clock request)).1 = valueResponse request v := by
  have routed : (rt.router.routeRequest hash request).workerId = rt.router.owner hash k := by
    obtain ⟨_, _, _, _⟩ := request
    cases command
    cases args
    rfl
  have hosted : rt.workers.get? (rt.router.owner hash k) = some (rt.chosen hash request) := by
    rw [← routed]
    exact get?_worker rt (rt.router.routeRequest_mem hash request)
  have settled := ((h _ hosted).pass (clock 0)).pass (clock.drop 1 0)
  rw [executeRouted_exact, StoreWorker.execute_exact]
  obtain ⟨_, _, _, _⟩ := request
  cases command
  cases args
  exact congrArg (valueResponse _) settled.value

/-- Logging and refreshing leave it so. -/
theorem OwnerHas.frame (h : rt.OwnerHas hash k v) {rt' : LiteStoreRuntime ℚ} (routes : rt'.router = rt.router)
    (workers : rt'.workers = rt.workers) : rt'.OwnerHas hash k v := by
  intro w found
  rw [routes, workers] at found
  exact h w found

theorem OwnerHas.refresh (h : rt.OwnerHas hash k v) (clocks : Nat → Clock ℚ) (aggregated : Dict String String)
    (ids : List String) : (Id.run (rt.refreshMetricsSnapshot clocks aggregated ids)).2.OwnerHas hash k v := by
  obtain ⟨routes, _, kept⟩ := refresh_workers
    (P := fun id w => id = rt.router.owner hash k → Settled k v w.store)
    (fun _ _ t settled same => (settled same).pass t) (fun id w found same => h w (same ▸ found)) clocks aggregated ids
  intro w found
  rw [routes] at found
  exact kept _ w found rfl

end LiteStoreRuntime

/-! ## Jobs -/

/-- The job is no write of the key. -/
def Job.Leaves (job : Job) (k : String) : Prop := ∀ request, job.request = some request → request.Leaves k

namespace Backend

variable {hash : String → Nat} {rowHash : Nat → String → Nat} {b : Backend} {k : String} {v : Option String}

/-- The metrics count, and the stores are valid. -/
def Sound (rowHash : Nat → String → Nat) (b : Backend) : Prop :=
  (∃ observed, b.Counted rowHash observed) ∧ b.runtime.AllValid

variable (hash) in
theorem Sound.step (h : b.Sound rowHash) (job : Job) : ((serial hash rowHash).step b job).2.Sound rowHash := by
  obtain ⟨⟨observed, counted⟩, valid⟩ := h
  refine ⟨counted.step job, ?_⟩
  rcases step_runtime hash counted job with ⟨clocks, _, left⟩ | ⟨_, left⟩ |
    ⟨request, clock, append, _, _, _, left⟩ <;> rw [left]
  · exact valid.refresh clocks _ _
  · exact valid
  · exact valid.dispatchRequest hash clock append request

variable (hash) in
theorem Sound.after (h : b.Sound rowHash) (jobs : List Job) : ((serial hash rowHash).after b jobs).Sound rowHash :=
  (serial hash rowHash).invariant h (fun _ job sound => sound.step hash job) jobs

variable (hash) in
/-- Every line has an answer. -/
theorem Sound.length_repliesTo (h : b.Sound rowHash) (i : Nat) (jobs : List Job) :
    (repliesTo hash rowHash i b jobs).length = (linesOf i jobs).length := by
  induction jobs generalizing b with
  | nil => rfl
  | cons job jobs ih =>
    have rest := ih (h.step hash job)
    have first : (replyTo hash rowHash i b job).length = (linesOf i [job]).length := by
      obtain ⟨⟨observed, counted⟩, _⟩ := h
      cases job with
      | refresh clocks => rfl
      | line j raw connectionId requestId clock append durationSeconds =>
        obtain ⟨response, replied, _⟩ :=
          counted.line hash j raw connectionId requestId clock append durationSeconds
        by_cases own : j = i
        · subst own
          simp [replyTo, linesOf, replied]
        · simp [replyTo, linesOf, own]
    have split : linesOf i (job :: jobs) = linesOf i [job] ++ linesOf i jobs := linesOf_append i [job] jobs
    rw [split, List.length_append, ← first, ← rest, ← List.length_append]
    rfl

/-- Jobs that do not write the key leave it to its owner as it is. -/
theorem ownerHas_after (h : b.Sound rowHash) (has : b.runtime.OwnerHas hash k v) {jobs : List Job}
    (leave : ∀ job ∈ jobs, job.Leaves k) :
    ((serial hash rowHash).after b jobs).runtime.OwnerHas hash k v := by
  induction jobs generalizing b with
  | nil => exact has
  | cons job jobs ih =>
    refine ih (h.step hash job) ?_ fun j m => leave j (List.mem_cons_of_mem _ m)
    obtain ⟨⟨observed, counted⟩, _⟩ := h
    rcases step_runtime hash counted job with ⟨clocks, _, left⟩ | ⟨_, left⟩ |
      ⟨request, clock, append, accepted, _, _, left⟩ <;> rw [left]
    · exact has.refresh clocks _ _
    · exact has
    · have routed := has.executeRouted clock (leave job List.mem_cons_self request accepted)
      obtain ⟨workers, routes, _⟩ := LiteStoreRuntime.logResponse_frame
        (Id.run (b.runtime.executeRouted hash clock request)).2 append request
        (Id.run (b.runtime.executeRouted hash clock request)).1
      rw [LiteStoreRuntime.dispatchRequest_log]
      exact routed.frame routes workers

/-- A write, whether it is logged or not. -/
theorem ownerHas_written (h : b.Sound rowHash) {job : Job} {request : CommandRequest}
    (accepted : job.request = some request) (writes : request.Writes k v) :
    ((serial hash rowHash).step b job).2.runtime.OwnerHas hash k v := by
  obtain ⟨⟨observed, counted⟩, valid⟩ := h
  rcases step_runtime hash counted job with ⟨_, none, _⟩ | ⟨none, _⟩ |
    ⟨request', clock, append, same, _, _, left⟩
  · rw [none] at accepted
    cases accepted
  · rw [none] at accepted
    cases accepted
  · obtain rfl : request' = request := Option.some.inj (same.symm.trans accepted)
    have written := LiteStoreRuntime.ownerHas_of_writes hash valid clock writes
    obtain ⟨workers, routes, _⟩ := LiteStoreRuntime.logResponse_frame
      (Id.run (b.runtime.executeRouted hash clock request')).2 append request'
      (Id.run (b.runtime.executeRouted hash clock request')).1
    rw [left, LiteStoreRuntime.dispatchRequest_log]
    exact written.frame routes workers

/-- A read. -/
theorem read_answered (h : b.Sound rowHash) (has : b.runtime.OwnerHas hash k v) {job : Job}
    {query : CommandRequest} (accepted : job.request = some query) (command : query.command = .GET)
    (args : query.args = [k]) : ((serial hash rowHash).step b job).1 = some (valueResponse query v) := by
  obtain ⟨⟨observed, counted⟩, _⟩ := h
  rcases step_runtime hash counted job with ⟨_, none, _⟩ | ⟨none, _⟩ |
    ⟨query', clock, append, same, _, answered, _⟩
  · rw [none] at accepted
    cases accepted
  · rw [none] at accepted
    cases accepted
  · obtain rfl : query' = query := Option.some.inj (same.symm.trans accepted)
    have unlogged (response : CommandResponse) : isPersistedWrite query' response = false := by
      simp [isPersistedWrite, mutates, command]
    rw [answered, (LiteStoreRuntime.dispatchRequest_exact hash b.runtime clock append query').2.2 (unlogged _),
      has.get clock command args]

end Backend

namespace Server
open Backend

variable {hash : String → Nat} {rowHash : Nat → String → Nat}

theorem started_sound (workerCount : Nat) (positive : 0 < workerCount) (file : List Char)
    (clocks snapshotClocks : Nat → Clock ℚ) :
    (started hash workerCount positive file clocks snapshotClocks).backend.Sound rowHash := by
  refine ⟨⟨[], Counted.refreshMetricsSnapshot ⟨.init, rfl, rfl⟩ snapshotClocks⟩, ?_⟩
  have valid := LiteStoreRuntime.reached_allValid hash workerCount positive file clocks []
  exact LiteStoreRuntime.AllValid.refresh valid snapshotClocks _ _

/-- **The last write is read**, over any connections and on any log: a `GET` is answered by the `SET` or `DEL`
of its key that comes before it in the serial execution, if no job between them writes the key. The answer
has its place among those to its connection. -/
theorem last_write_read (hash : String → Nat) (rowHash : Nat → String → Nat) (workerCount : Nat)
    (positive : 0 < workerCount) (file : List Char) (clocks snapshotClocks : Nat → Clock ℚ)
    (events : List ServerEvent) {before between after : List Job} {write : Job} {j : Nat} {raw : List UInt8}
    {connectionId requestId : String} {clock : Clock ℚ} {append : LogOutcome} {durationSeconds : ℚ}
    {k : String} {v : Option String} {request query : CommandRequest}
    (split : (started hash workerCount positive file clocks snapshotClocks).jobs hash rowHash events =
      before ++ write :: between ++ .line j raw connectionId requestId clock append durationSeconds :: after)
    (written : write.request = some request) (writes : request.Writes k v)
    (leave : ∀ job ∈ between, job.Leaves k)
    (accepted : (Job.line j raw connectionId requestId clock append durationSeconds).request = some query)
    (command : query.command = .GET) (args : query.args = [k]) :
    let start := started hash workerCount positive file clocks snapshotClocks
    (repliesTo hash rowHash j start.backend (start.jobs hash rowHash events))[
      (linesOf j (before ++ write :: between)).length]? = some (valueResponse query v) := by
  intro start
  have sound : start.backend.Sound rowHash := started_sound workerCount positive file clocks snapshotClocks
  have earlier := sound.after hash before
  have now := earlier.step hash write
  have has := ownerHas_after now (ownerHas_written earlier written writes) leave
  have reached : (serial hash rowHash).after start.backend (before ++ write :: between) =
      (serial hash rowHash).after ((serial hash rowHash).step ((serial hash rowHash).after start.backend before)
        write).2 between := Machine.after_append ..
  rw [← reached] at has
  have answer := read_answered (sound.after hash (before ++ write :: between)) has accepted command args
  rw [split, repliesTo_append, ← sound.length_repliesTo hash, List.getElem?_append_right le_rfl,
    Nat.sub_self, repliesTo, Machine.collect, replyTo, if_pos rfl, answer]
  rfl

/-- One client sets a key, and another reads it after a refresh; the clock goes back. -/
def overheard : List ServerEvent :=
  [.connected none, .connected none, .dataReceived 0 [83, 69, 84, 32, 107, 32, 118, 10],
   .dataReceived 1 [71, 69, 84, 32, 107, 10], .round 0 (Clock.still 5) (.unflushed "No space left on device" 0 0) 0,
   .refresh fun _ => Clock.still 9, .round 1 (Clock.still 4) .done 0]

set_option maxRecDepth 4000 in
theorem overheard_jobs :
    (started Sha256.leading 2 Nat.two_pos [] (fun _ => Clock.still 0) fun _ => Clock.still 0).jobs Sha256.leading
        CountMinSketch.sha256Row overheard =
      [] ++ .line 0 [83, 69, 84, 32, 107, 32, 118, 10] (nextConnectionId none 1)
        (requestIdOf (nextConnectionId none 1) 1) (Clock.still 5) (.unflushed "No space left on device" 0 0) 0 ::
      [.refresh fun _ => Clock.still 9] ++ .line 1 [71, 69, 84, 32, 107, 10] (nextConnectionId none 2)
        (requestIdOf (nextConnectionId none 2) 1) (Clock.still 4) .done 0 :: [] := rfl

theorem overheard_read :
    let start := started Sha256.leading 2 Nat.two_pos [] (fun _ => Clock.still 0) fun _ => Clock.still 0
    (repliesTo Sha256.leading CountMinSketch.sha256Row 1 start.backend
      (start.jobs Sha256.leading CountMinSketch.sha256Row overheard))[0]? =
      some (valueResponse ⟨.GET, ["k"], some "connection:2:1", some "connection:2"⟩ (some "v")) := by
  have query : (Job.line 1 [71, 69, 84, 32, 107, 10] (nextConnectionId none 2)
      (requestIdOf (nextConnectionId none 2) 1) (Clock.still 4) .done 0).request =
        some ⟨.GET, ["k"], some "connection:2:1", some "connection:2"⟩ := by decide +kernel
  have write : (Job.line 0 [83, 69, 84, 32, 107, 32, 118, 10] (nextConnectionId none 1)
      (requestIdOf (nextConnectionId none 1) 1) (Clock.still 5) (.unflushed "No space left on device" 0 0) 0).request =
        some ⟨.SET, ["k", "v"], some "connection:1:1", some "connection:1"⟩ := by decide +kernel
  have alone : ∀ job ∈ [Job.refresh fun _ => Clock.still 9], job.Leaves "k" :=
    List.forall_mem_singleton.mpr fun _ none => by cases none
  have answered := last_write_read Sha256.leading CountMinSketch.sha256Row 2 Nat.two_pos [] (fun _ => Clock.still 0)
    (fun _ => Clock.still 0) overheard overheard_jobs write (.inl ⟨"v", rfl, rfl, rfl⟩) alone query rfl rfl
  exact answered

end Server
end LiteStore
