import LiteStore.Server.LastWrite
import LiteStore.Shard.Owned
import LiteStore.Store.Refine

/-!
# The stores of a run

A job makes calls on the store of one worker, or a snapshot of each (`storeCalls`). So in every run each
worker's store is one that its calls reach from a fresh one (`stored_by_calls`), and what is known of runs of
a store is known of it, if the readings of the jobs never decrease: those of its calls do not either
(`runCalls_sorted`).
-/

namespace LiteStore
set_option autoImplicit false
open Py MemoryStore

/-! ## The calls of a request -/

namespace LiteStoreRuntime

variable (hash : String → Nat) {rt : LiteStoreRuntime ℚ}

/-- The calls that a request makes on the store of a worker. -/
def requestCalls (router : DeterministicHashRouter) (id : String) (request : CommandRequest) (clock : Clock ℚ) :
    List StoreCall :=
  if (router.routeRequest hash request).workerId = id then
    ⟨.processExpirations none, clock⟩ :: commandCalls request (clock.drop 1)
  else []

/-- The calls that the replay of records makes on it. -/
def recoveryCalls (router : DeterministicHashRouter) (id : String) (clocks : Nat → Clock ℚ) :
    List PersistRecord → List StoreCall
  | [] => []
  | record :: records =>
    requestCalls hash router id record.request (clocks 0) ++
      recoveryCalls router id (fun i => clocks (i + 1)) records

/-- The worker is there, with the store that these calls reach from another. -/
def Reaches (rt : LiteStoreRuntime ℚ) (id : String) (s : MemoryStore ℚ) (calls : List StoreCall) : Prop :=
  ∃ w, rt.workers.get? id = some w ∧ w.store = MemoryStore.machine.after s calls

variable {id : String} {s : MemoryStore ℚ} {calls : List StoreCall}

theorem Reaches.executeRouted (h : rt.Reaches id s calls) (clock : Clock ℚ) (request : CommandRequest) :
    (Id.run (rt.executeRouted hash clock request)).2.Reaches id s
      (calls ++ requestCalls hash rt.router id request clock) := by
  obtain ⟨w, hosted, store⟩ := h
  unfold Reaches
  rw [executeRouted_workers, requestCalls, Machine.after_append, ← store]
  by_cases here : (rt.router.routeRequest hash request).workerId = id
  · subst here
    obtain rfl : w = rt.chosen hash request :=
      Option.some.inj (hosted.symm.trans (get?_worker rt (rt.router.routeRequest_mem hash request)))
    rw [if_pos rfl, if_pos rfl]
    refine ⟨_, rfl, ?_⟩
    rw [StoreWorker.execute_exact]
    exact executeCommand_state request _ _
  · rw [if_neg (Ne.symm here), if_neg here]
    exact ⟨w, hosted, rfl⟩

theorem Reaches.frame (h : rt.Reaches id s calls) {rt' : LiteStoreRuntime ℚ}
    (workers : rt'.workers = rt.workers) : rt'.Reaches id s calls := by
  unfold Reaches
  rw [workers]
  exact h

theorem Reaches.replay (h : rt.Reaches id s calls) (clocks : Nat → Clock ℚ) (records : List PersistRecord) :
    (Id.run (rt.replayPersistence hash clocks records)).Reaches id s
      (calls ++ recoveryCalls hash rt.router id clocks records) := by
  induction records generalizing rt clocks calls with
  | nil =>
    rw [recoveryCalls, List.append_nil]
    exact h
  | cons record records ih =>
    rw [recoveryCalls, ← List.append_assoc, replayPersistence_cons]
    exact ih (h.executeRouted hash (clocks 0) record.request) _

variable {hash}

/-- The loop of a refresh takes a snapshot of each worker that it comes to. -/
theorem refresh_store {ids : List String} (distinct : ids.Nodup)
    (hosted : ∀ i ∈ ids, ∃ w, rt.workers.get? i = some w) (listed : id ∈ ids) (clocks : Nat → Clock ℚ)
    (aggregated : Dict String String) {w : StoreWorker ℚ} (found : rt.workers.get? id = some w) :
    (Id.run (rt.refreshMetricsSnapshot clocks aggregated ids)).2.workers.get? id =
      some { w with store := w.store.pass (clocks (ids.idxOf id) 0) } := by
  induction ids generalizing rt clocks aggregated with
  | nil => cases listed
  | cons i ids ih =>
    obtain ⟨fresh, distinct⟩ := List.nodup_cons.mp distinct
    obtain ⟨v, at_i⟩ := hosted i List.mem_cons_self
    rw [refresh_cons at_i]
    by_cases here : i = id
    · subst here
      obtain rfl : v = w := Option.some.inj (at_i.symm.trans found)
      rw [refresh_other fresh, setWorker_get?, if_pos rfl, List.idxOf_cons_self]
    · have later := (List.mem_cons.mp listed).resolve_left (Ne.symm here)
      rw [ih distinct (fun j m => ?_) later, List.idxOf_cons_ne _ here]
      · rw [setWorker_get?, if_neg (Ne.symm here)]
        exact found
      · obtain ⟨u, at_j⟩ := hosted j (List.mem_cons_of_mem _ m)
        rw [setWorker_get?]
        split
        · exact ⟨_, rfl⟩
        · exact ⟨u, at_j⟩

theorem Reaches.refresh (h : rt.Reaches id s calls) (clocks : Nat → Clock ℚ) :
    (Id.run (rt.refreshMetricsSnapshot clocks Dict.empty rt.workers.keys)).2.Reaches id s
      (calls ++ [⟨.snapshot, clocks (rt.workers.keys.idxOf id)⟩]) := by
  obtain ⟨w, hosted, store⟩ := h
  have listed : id ∈ rt.workers.keys := Dict.mem_keys.mpr ⟨w, hosted⟩
  refine ⟨_, refresh_store rt.workers.keys_nodup (fun i m => Dict.mem_keys.mp m) listed clocks _ hosted, ?_⟩
  rw [Machine.after_append, ← store]
  rfl

end LiteStoreRuntime

/-! ## The calls of a run -/

namespace Backend

variable (hash : String → Nat) (rowHash : Nat → String → Nat) {b : Backend}

/-- The calls that a job makes on the store of a worker. -/
def storeCalls (id : String) (b : Backend) (job : Job) : List StoreCall :=
  match job with
  | .line _ raw connectionId requestId clock _ _ =>
    match parseCommand (String.ofList (decode raw)) (some requestId) (some connectionId) with
    | .error _ => []
    | .ok request => LiteStoreRuntime.requestCalls hash b.runtime.router id request clock
  | .refresh clocks => [⟨.snapshot, clocks (b.runtime.workers.keys.idxOf id)⟩]

variable {hash rowHash} {id : String} {s : MemoryStore ℚ} {calls : List StoreCall}

theorem step_reaches (counts : ∃ observed, b.Counted rowHash observed) (h : b.runtime.Reaches id s calls) (job : Job) :
    ((serial hash rowHash).step b job).2.runtime.Reaches id s (calls ++ storeCalls hash id b job) := by
  obtain ⟨observed, counted⟩ := counts
  cases job with
  | refresh clocks => exact h.refresh clocks
  | line i raw connectionId requestId clock append durationSeconds =>
    have step : (serial hash rowHash).step b (.line i raw connectionId requestId clock append durationSeconds) =
      b.processCommandBytes hash rowHash clock append durationSeconds raw connectionId requestId := rfl
    rw [step, processCommandBytes, storeCalls]
    cases parseCommand (String.ofList (decode raw)) (some requestId) (some connectionId) with
    | error exc =>
      rw [List.append_nil]
      exact h
    | ok request =>
      obtain ⟨metrics, observes, _⟩ := counted.observe ⟨request, durationSeconds⟩
      simp only [observes]
      have routed := h.executeRouted hash clock request
      exact routed.frame (LiteStoreRuntime.dispatchRequest_exact hash b.runtime clock append request).1

/-- A run of jobs on a worker's store. -/
theorem after_reaches (sound : b.Sound rowHash) (h : b.runtime.Reaches id s calls) (jobs : List Job) :
    ((serial hash rowHash).after b jobs).runtime.Reaches id s
      (calls ++ (serial hash rowHash).collect (storeCalls hash id) b jobs) := by
  induction jobs generalizing b calls with
  | nil =>
    rw [Machine.collect, List.append_nil]
    exact h
  | cons job jobs ih =>
    rw [Machine.collect, ← List.append_assoc]
    exact ih (sound.step hash job) (step_reaches sound.1 h job)

end Backend

/-! ## Readings in order -/

/-- The readings do not decrease, and they lie between these times. -/
structure Rises (lo : ℚ) (readings : List ℚ) (hi : ℚ) : Prop where
  le : lo ≤ hi
  sorted : readings.Pairwise (· ≤ ·)
  between : ∀ r ∈ readings, lo ≤ r ∧ r ≤ hi

theorem Rises.append {lo mid hi : ℚ} {readings more : List ℚ} (h : Rises lo readings mid) (h' : Rises mid more hi) :
    Rises lo (readings ++ more) hi where
  le := h.le.trans h'.le
  sorted := List.pairwise_append.mpr ⟨h.sorted, h'.sorted, fun r m r' m' =>
    (h.between r m).2.trans (h'.between r' m').1⟩
  between r m := by
    rcases List.mem_append.mp m with m | m
    · exact ⟨(h.between r m).1, (h.between r m).2.trans h'.le⟩
    · exact ⟨h.le.trans (h'.between r m).1, (h'.between r m).2⟩

theorem Rises.nil {lo hi : ℚ} (le : lo ≤ hi) : Rises lo [] hi := ⟨le, List.Pairwise.nil, List.forall_mem_nil _⟩

/-- Some readings of a clock that does not go back. -/
theorem rises_of_sublist {lo hi : ℚ} {clock : Clock ℚ} (monotone : Monotone clock)
    (between : ∀ i, lo ≤ clock i ∧ clock i ≤ hi) {readings : List ℚ} {n : Nat}
    (sub : readings.Sublist ((List.range n).map clock)) : Rises lo readings hi where
  le := (between 0).1.trans (between 0).2
  sorted := by
    refine List.Pairwise.sublist sub (List.pairwise_map.mpr ?_)
    exact List.pairwise_lt_range.imp fun less => monotone (Nat.le_of_lt less)
  between r m := by
    obtain ⟨i, _, rfl⟩ := List.mem_map.mp (sub.subset m)
    exact between i

theorem taken_sublist (s : MemoryStore ℚ) (c : StoreCall) (implicit : ∀ t, c.op ≠ .processExpirations (some t)) :
    (s.taken c).Sublist ((List.range 3).map c.clock) := by
  have start : c.start = c.clock 0 := by
    obtain ⟨op, clock⟩ := c
    cases op
    case processExpirations now =>
      cases now with
      | none => rfl
      | some t => exact absurd rfl (implicit t)
    all_goals rfl
  have three : (List.range 3).map c.clock = [c.clock 0, c.clock 1, c.clock 2] := rfl
  have one : [c.clock 0].Sublist [c.clock 0, c.clock 1, c.clock 2] := by simp
  have two : [c.clock 0, c.clock 1].Sublist [c.clock 0, c.clock 1, c.clock 2] := by simp
  rw [three]
  unfold taken
  dsimp only
  rw [start]
  split
  · split
    · exact two
    · exact one
  · split
    · exact one
    · split
      · exact List.Sublist.refl _
      · exact two
  · exact one

/-- The clock from its second reading on. -/
theorem map_drop (clock : Clock ℚ) (n : Nat) :
    (List.range (n + 1)).map clock = clock 0 :: (List.range n).map (clock.drop 1) := by
  rw [List.range_succ_eq_map, List.map_cons, List.map_map]
  refine congrArg _ (List.map_congr_left fun i _ => ?_)
  exact congrArg clock (Nat.add_comm 1 i).symm

theorem getCalls_taken (s : MemoryStore ℚ) (clock : Clock ℚ) (keys : List String) :
    MemoryStore.machine.collect taken s (getCalls clock keys) = (List.range keys.length).map clock := by
  induction keys generalizing s clock with
  | nil => rfl
  | cons key keys ih =>
    rw [getCalls, Machine.collect, ih, List.length_cons, map_drop]
    rfl

/-- A command takes readings of its clock in their order. -/
theorem commandCalls_taken (s : MemoryStore ℚ) (request : CommandRequest) (clock : Clock ℚ) :
    ∃ n, (MemoryStore.machine.collect taken s (commandCalls request clock)).Sublist ((List.range n).map clock) := by
  have single (op : StoreOp) (implicit : ∀ t, op ≠ .processExpirations (some t)) :
      ∃ n, (MemoryStore.machine.collect taken s [⟨op, clock⟩]).Sublist ((List.range n).map clock) := by
    refine ⟨3, ?_⟩
    rw [Machine.collect, Machine.collect, List.append_nil]
    exact taken_sublist s ⟨op, clock⟩ implicit
  have nothing : ∃ n, (MemoryStore.machine.collect taken s []).Sublist ((List.range n).map clock) :=
    ⟨0, List.Sublist.refl _⟩
  obtain ⟨command, args, _, _⟩ := request
  cases command
  case MGET => exact ⟨args.length, (getCalls_taken s clock args).symm ▸ List.Sublist.refl _⟩
  case EXPIRE =>
    rcases args with _ | ⟨key, _ | ⟨value, _ | ⟨more, rest⟩⟩⟩ <;> try exact nothing
    simp only [commandCalls]
    cases parseTtlSeconds value with
    | none => exact nothing
    | some seconds => exact single _ (by simp)
  all_goals
    rcases args with _ | ⟨key, _ | ⟨value, _ | ⟨more, rest⟩⟩⟩ <;> first
      | exact nothing
      | exact single _ (by simp)

theorem requestCalls_rises (hash : String → Nat) (router : DeterministicHashRouter) (id : String) (s : MemoryStore ℚ)
    (request : CommandRequest) {lo hi : ℚ} {clock : Clock ℚ} (monotone : Monotone clock)
    (between : ∀ i, lo ≤ clock i ∧ clock i ≤ hi) :
    Rises lo (MemoryStore.machine.collect taken s
      (LiteStoreRuntime.requestCalls hash router id request clock)) hi := by
  unfold LiteStoreRuntime.requestCalls
  split
  · obtain ⟨n, sub⟩ := commandCalls_taken (s.pass (clock 0)) request (clock.drop 1)
    refine rises_of_sublist monotone between (n := n + 1) ?_
    rw [map_drop]
    exact sub.cons_cons (clock 0)
  · exact .nil ((between 0).1.trans (between 0).2)

/-- The job reads the clock between these times, and a handler's clock does not go back. -/
def Job.During (lo hi : ℚ) : Job → Prop
  | .line _ _ _ _ clock _ _ => Monotone clock ∧ ∀ i, lo ≤ clock i ∧ clock i ≤ hi
  | .refresh clocks => ∀ i j, lo ≤ clocks i j ∧ clocks i j ≤ hi

/-- The jobs read the clock one after the other. -/
def Chronological : ℚ → List Job → Prop
  | _, [] => True
  | t, job :: jobs => ∃ t', t ≤ t' ∧ job.During t t' ∧ Chronological t' jobs

/-- The replay and the first snapshot read the clock one after the other, up to `t`. -/
structure StartsBy (clocks snapshotClocks : Nat → Clock ℚ) (t : ℚ) : Prop where
  monotone : ∀ i, Monotone (clocks i)
  next : ∀ i j j', clocks i j ≤ clocks (i + 1) j'
  replayed : ∀ i j i' j', clocks i j ≤ snapshotClocks i' j'
  last : ∀ i j, snapshotClocks i j ≤ t

theorem recoveryCalls_rises (hash : String → Nat) (router : DeterministicHashRouter) (id : String) (s : MemoryStore ℚ)
    {clocks : Nat → Clock ℚ} (monotone : ∀ i, Monotone (clocks i)) (next : ∀ i j j', clocks i j ≤ clocks (i + 1) j')
    {lo hi : ℚ} (first : ∀ j, lo ≤ clocks 0 j) (last : ∀ i j, clocks i j ≤ hi) (records : List PersistRecord) :
    Rises lo (MemoryStore.machine.collect taken s
      (LiteStoreRuntime.recoveryCalls hash router id clocks records)) hi := by
  induction records generalizing s clocks lo with
  | nil => exact .nil ((first 0).trans (last 0 0))
  | cons record records ih =>
    rw [LiteStoreRuntime.recoveryCalls, Machine.collect_append]
    -- The readings of a record come before the first of the next one.
    have here := requestCalls_rises hash router id s record.request (monotone 0)
      fun j => ⟨first j, next 0 j 0⟩
    have rest := ih (MemoryStore.machine.after s
      (LiteStoreRuntime.requestCalls hash router id record.request (clocks 0))) (fun i => monotone (i + 1))
      (fun i => next (i + 1)) (fun j => monotone 1 (Nat.zero_le j)) fun i => last (i + 1)
    exact here.append rest

namespace Backend

variable {hash : String → Nat} {rowHash : Nat → String → Nat}

theorem storeCalls_rises (id : String) (b : Backend) (s : MemoryStore ℚ) {lo hi : ℚ} {job : Job} (le : lo ≤ hi)
    (during : job.During lo hi) :
    Rises lo (MemoryStore.machine.collect taken s (storeCalls hash id b job)) hi := by
  cases job with
  | refresh clocks =>
    refine ⟨le, List.pairwise_singleton _ _, fun r m => ?_⟩
    rw [List.mem_singleton.mp m]
    exact during _ 0
  | line i raw connectionId requestId clock append durationSeconds =>
    rw [storeCalls]
    split
    · exact .nil le
    · exact requestCalls_rises hash _ id s _ during.1 during.2

variable (hash rowHash) in
theorem collect_rises (id : String) (b : Backend) (s : MemoryStore ℚ) {t : ℚ} {jobs : List Job}
    (chronological : Chronological t jobs) :
    ∃ hi, Rises t (MemoryStore.machine.collect taken s
      ((serial hash rowHash).collect (storeCalls hash id) b jobs)) hi := by
  induction jobs generalizing b s t with
  | nil => exact ⟨t, .nil le_rfl⟩
  | cons job jobs ih =>
    obtain ⟨t', le, during, later⟩ := chronological
    obtain ⟨hi, rest⟩ := ih ((serial hash rowHash).step b job).2
      (MemoryStore.machine.after s (storeCalls hash id b job)) later
    rw [Machine.collect, Machine.collect_append]
    exact ⟨hi, (storeCalls_rises id b s le during).append rest⟩

end Backend

/-! ## A worker of a run -/

namespace Server
open Backend

/-- The calls that the start makes on the store of a worker. -/
def startCalls (hash : String → Nat) (workerCount : Nat) (positive : 0 < workerCount) (file : List Char)
    (clocks snapshotClocks : Nat → Clock ℚ) (id : String) : List StoreCall :=
  let rt : LiteStoreRuntime ℚ := .create workerCount positive file
  LiteStoreRuntime.recoveryCalls hash rt.router id clocks rt.persistence.replay ++
    [⟨.snapshot, snapshotClocks ((LiteStoreRuntime.started hash workerCount positive file clocks).workers.keys.idxOf id)⟩]

variable (hash : String → Nat) (rowHash : Nat → String → Nat) (workerCount : Nat) (positive : 0 < workerCount)
  (file : List Char) (clocks snapshotClocks : Nat → Clock ℚ)

/-- The calls that a run makes on it. -/
def runCalls (jobs : List Job) (id : String) : List StoreCall :=
  startCalls hash workerCount positive file clocks snapshotClocks id ++
    (serial hash rowHash).collect (storeCalls hash id)
      (started hash workerCount positive file clocks snapshotClocks).backend jobs

theorem started_reaches {id : String} (known : id ∈ LiteStoreRuntime.workerNames workerCount) :
    (started hash workerCount positive file clocks snapshotClocks).backend.runtime.Reaches id
      (fresh TimingWheel.default) (startCalls hash workerCount positive file clocks snapshotClocks id) := by
  obtain ⟨w, hosted⟩ := Dict.contains_iff.mp ((LiteStoreRuntime.freshWorkers_contains (τ := ℚ) _ id).mpr known)
  have created : (LiteStoreRuntime.create (τ := ℚ) workerCount positive file).Reaches id
    (fresh TimingWheel.default) [] := ⟨w, hosted, LiteStoreRuntime.freshWorkers_store _ hosted⟩
  exact (created.replay hash clocks _).refresh snapshotClocks

/-- **Each worker's store** is reached by its calls. -/
theorem stored_by_calls {id : String} (known : id ∈ LiteStoreRuntime.workerNames workerCount) (jobs : List Job) :
    ((serial hash rowHash).after (started hash workerCount positive file clocks snapshotClocks).backend jobs
      ).runtime.Reaches id (fresh TimingWheel.default)
        (runCalls hash rowHash workerCount positive file clocks snapshotClocks jobs id) :=
  after_reaches (started_sound workerCount positive file clocks snapshotClocks)
    (started_reaches hash workerCount positive file clocks snapshotClocks known) jobs

/-- The readings of the calls do not decrease if those of the run do not. -/
theorem runCalls_sorted {t : ℚ} (starts : StartsBy clocks snapshotClocks t) {jobs : List Job}
    (chronological : Chronological t jobs) (id : String) :
    (MemoryStore.machine.collect taken (fresh TimingWheel.default)
      (runCalls hash rowHash workerCount positive file clocks snapshotClocks jobs id)).Pairwise (· ≤ ·) := by
  rw [runCalls, startCalls, Machine.collect_append, Machine.collect_append]
  obtain ⟨hi, later⟩ := collect_rises hash rowHash id
    (started hash workerCount positive file clocks snapshotClocks).backend _ chronological
  exact ((Rises.append (recoveryCalls_rises hash _ id _ starts.monotone starts.next
    (fun j => starts.monotone 0 (Nat.zero_le j)) (fun i j => starts.replayed i j _ 0) _)
      ⟨starts.last _ 0, List.pairwise_singleton _ _, fun r m => by
        rw [List.mem_singleton.mp m]
        exact ⟨le_rfl, starts.last _ 0⟩⟩).append later).sorted

end Server
end LiteStore
