import LiteStore.Shard.Single
import LiteStore.Worker.Recovery

/-!
# One log, any number of workers

The in-process runtime keeps one log for all its workers. As long as no request
brings a deadline or flushes, the stores split the dictionary that the records in
the log make (`Recorded`), whatever the number of workers, so each key is held by
its owner alone and a restart with another number of workers finds every value.
-/

namespace LiteStore
set_option autoImplicit false
open Py MemoryStore

/-- A keywise command that is not logged changes no dictionary. -/
theorem dataCommand_unlogged {request : CommandRequest} (keywise : Keywise request)
    {e : Dict String String} (unlogged : mutates request (dataCommand request e).1 = false)
    (d : Dict String String) : (dataCommand request d).2 = d := by
  obtain ⟨command, args, i, j⟩ := request
  cases command
  case EXPIRE => exact absurd rfl keywise.1
  case FLUSHALL => exact absurd rfl keywise.2
  case KEYS => exact dataCommand_keys args i j d
  case SET =>
    rcases args with _ | ⟨key, _ | ⟨value, _ | ⟨more, rest⟩⟩⟩
    case cons.cons.nil => cases unlogged
    all_goals rfl
  case DEL =>
    rcases args with _ | ⟨key, _ | ⟨more, rest⟩⟩
    case cons.nil => cases unlogged
    all_goals rfl
  all_goals rcases args with _ | ⟨key, _ | ⟨value, rest⟩⟩ <;> rfl

theorem dataAfter_append (requests : List CommandRequest) (request : CommandRequest) :
    dataAfter (requests ++ [request]) = (dataCommand request (dataAfter requests)).2 :=
  List.foldl_concat _ _ _ _

/-- What a log makes is up to the records as the log keeps them. -/
theorem dataAfter_logged (records : List PersistRecord) :
    dataAfter ((records.map PersistRecord.logged).map PersistRecord.request) =
      dataAfter (records.map PersistRecord.request) := by
  rw [dataAfter, dataAfter, List.map_map, List.foldl_map, List.foldl_map]
  congr 1
  funext d record
  exact dataCommand_ids _ _ _ _ _ _ d

namespace LiteStoreRuntime

variable (hash : String → Nat)

/-- Each stored key is held by exactly one worker, the one `route_key` names for it. -/
def OwnsKeys (rt : LiteStoreRuntime ℚ) : Prop :=
  ∀ k, (∃ id w, rt.workers.get? id = some w ∧ w.store.data.contains k = true) →
    ∀ id w, rt.workers.get? id = some w →
      (w.store.data.contains k = true ↔ id = (rt.router.routeKey hash k).workerId)

/-- A worker holds the key with this value. -/
def Holds (rt : LiteStoreRuntime ℚ) (k v : String) : Prop :=
  ∃ id w, rt.workers.get? id = some w ∧ w.store.data.get? k = some v

/-- The event is a refresh, or the dispatch of a keywise request whose log append succeeds. -/
def LoggedKeywise : RuntimeEvent → Prop
  | .dispatch request _ append => Keywise request ∧ append = .done
  | .refresh _ => True

variable {hash} {router : DeterministicHashRouter} {rt : LiteStoreRuntime ℚ} {s : MemoryStore ℚ}

/-! ## Splits -/

/-- A worker's value of a key it owns. -/
theorem Splits.holds_iff (splits : Splits hash router rt s) (k v : String) :
    rt.Holds k v ↔ s.data.get? k = some v := by
  constructor
  · rintro ⟨id, w, hosted, found⟩
    rw [(splits.parts id w hosted).2 k] at found
    split at found
    · exact found
    · cases found
  · intro found
    have known : router.owner hash k ∈ rt.router.workerIds := by
      rw [splits.routes]
      exact List.get_mem router.workerIds _
    have hosted := get?_worker rt known
    exact ⟨_, _, hosted, by rw [(splits.parts _ _ hosted).2 k, if_pos rfl, found]⟩

theorem Splits.ownsKeys (splits : Splits hash router rt s) : rt.OwnsKeys hash := by
  rintro k ⟨id₀, w₀, hosted₀, stored⟩ id w hosted
  obtain ⟨v, found⟩ := Dict.contains_iff.mp stored
  have value : s.data.get? k = some v := (splits.holds_iff k v).mp ⟨id₀, w₀, hosted₀, found⟩
  rw [Dict.contains, (splits.parts id w hosted).2 k, splits.routes, value]
  by_cases own : router.owner hash k = id
  · rw [if_pos own]
    exact ⟨fun _ => own.symm, fun _ => rfl⟩
  · rw [if_neg own]
    exact ⟨by rintro ⟨⟩, fun here => absurd here.symm own⟩

theorem sharded_step (rt : LiteStoreRuntime ℚ) (a : Routed) :
    (sharded hash).step rt a = Id.run (rt.executeRouted hash a.clock a.request) := rfl

/-- Only the router and the workers matter. -/
theorem Splits.frame (splits : Splits hash router rt s) {rt' : LiteStoreRuntime ℚ}
    (routes : rt'.router = rt.router) (workers : rt'.workers = rt.workers) :
    Splits hash router rt' s where
  routes := routes.trans splits.routes
  plain := splits.plain
  parts := by rw [workers]; exact splits.parts

theorem Splits.refresh (splits : Splits hash router rt s) (clocks : Nat → Clock ℚ)
    (aggregated : Dict String String) (ids : List String) :
    Splits hash router (Id.run (rt.refreshMetricsSnapshot clocks aggregated ids)).2 s := by
  obtain ⟨routes, _, parts⟩ := refresh_workers (P := fun id w => w.store.Plain ∧
    Part hash router id w.store.data s.data)
    (fun id w t here => ⟨here.1.pass t, by
      rw [Part, here.1.pass_data]
      exact here.2⟩) splits.parts clocks aggregated ids
  exact ⟨routes.trans splits.routes, splits.plain, parts⟩

/-- Replayed records act on the workers as on the dictionary. -/
theorem Splits.replay (splits : Splits hash router rt s) (clocks : Nat → Clock ℚ)
    {records : List PersistRecord} (keywise : ∀ record ∈ records, Keywise record.request) :
    (∃ s', Splits hash router (Id.run (rt.replayPersistence hash clocks records)) s' ∧
      s'.data = (records.map PersistRecord.request).foldl (fun d request => (dataCommand request d).2)
        s.data) ∧
    (Id.run (rt.replayPersistence hash clocks records)).persistence = rt.persistence := by
  induction records generalizing rt s clocks with
  | nil => exact ⟨⟨s, splits, rfl⟩, rfl⟩
  | cons record records ih =>
    have first := keywise record (by simp)
    have next := splits.step (a := ⟨record.request, clocks 0, Clock.still 0⟩) first
    obtain ⟨⟨s', rest, data⟩, log⟩ :=
      ih next (fun i => clocks (i + 1)) fun r member => keywise r (by simp [member])
    have single : (oneStore.step s ⟨record.request, clocks 0, Clock.still 0⟩).2.data =
        (dataCommand record.request s.data).2 :=
      (executeCommand_plain splits.plain record.request (Clock.still 0)).2.1
    rw [single] at data
    simp only [sharded_step] at rest log
    rw [replayPersistence_cons]
    exact ⟨⟨s', rest, data⟩, log.trans (executeRouted_frame hash rt (clocks 0) record.request).2⟩

/-! ## The log and the workers -/

/-- The log holds the records whole, and the stores split what they make. -/
structure Recorded (hash : String → Nat) (router : DeterministicHashRouter) (rt : LiteStoreRuntime ℚ)
    (records : List PersistRecord) : Prop where
  logged : rt.persistence.Holds records
  keywise : ∀ record ∈ records, Keywise record.request
  splits : ∃ s, Splits hash router rt s ∧ s.data = dataAfter (records.map PersistRecord.request)

variable (hash) in
/-- A new runtime after the replay of some records. -/
theorem replayed_splits (workerCount : Nat) (positive : 0 < workerCount) (file : List Char)
    (clocks : Nat → Clock ℚ) {records : List PersistRecord}
    (keywise : ∀ record ∈ records, Keywise record.request) :
    let rt : LiteStoreRuntime ℚ := create workerCount positive file
    ∃ s, Splits hash rt.router (Id.run (rt.replayPersistence hash clocks records)) s ∧
      s.data = dataAfter (records.map PersistRecord.request) :=
  ((create_splits hash workerCount positive file).replay clocks keywise).1

variable (hash) in
/-- A runtime that starts on a log of whole records. -/
theorem started_recorded (workerCount : Nat) (positive : 0 < workerCount)
    (records : List PersistRecord) (keywise : ∀ record ∈ records, Keywise record.request)
    (clocks : Nat → Clock ℚ) :
    Recorded hash (create (τ := ℚ) workerCount positive []).router
      (started hash workerCount positive (records.flatMap PersistRecord.line) clocks) records := by
  set file := records.flatMap PersistRecord.line with hfile
  set rt : LiteStoreRuntime ℚ := create workerCount positive file with hrt
  have holds : rt.persistence.Holds records := ⟨hfile, rfl⟩
  have read : rt.persistence.replay = records.map PersistRecord.logged := holds.replay
  have keywise' : ∀ record ∈ records.map PersistRecord.logged, Keywise record.request := by
    intro record member
    obtain ⟨record', member', rfl⟩ := List.mem_map.mp member
    exact keywise record' member'
  obtain ⟨⟨s, splits, data⟩, log⟩ :=
    (create_splits hash workerCount positive file).replay clocks keywise'
  have run : started hash workerCount positive file clocks =
      Id.run (rt.replayPersistence hash clocks (records.map PersistRecord.logged)) := by
    rw [← read]
    rfl
  rw [run]
  refine ⟨log ▸ holds, keywise, s, splits, ?_⟩
  rw [data, ← dataAfter_logged]
  rfl

/-- One event keeps the log and the workers together. -/
theorem Recorded.advance {records : List PersistRecord} (h : Recorded hash router rt records)
    {event : RuntimeEvent} (logged : LoggedKeywise event) :
    ∃ records', Recorded hash router (rt.advance hash event) records' := by
  obtain ⟨holds, keywise, s, splits, data⟩ := h
  cases event with
  | refresh clocks =>
    refine ⟨records, ?_, keywise, s, splits.refresh clocks Dict.empty rt.workers.keys, data⟩
    rwa [LiteStoreRuntime.advance, rt.refresh_persistence]
  | dispatch request clock append =>
    obtain ⟨first, rfl⟩ := logged
    have next := splits.step (a := ⟨request, clock, Clock.still 0⟩) first
    have single : (oneStore.step s ⟨request, clock, Clock.still 0⟩).2.data =
        (dataCommand request s.data).2 :=
      (executeCommand_plain splits.plain request (Clock.still 0)).2.1
    rw [data] at single
    have answer : (Id.run (rt.executeRouted hash clock request)).1 =
        (dataCommand request (rt.chosen hash request).store.data).1 := by
      rw [executeRouted_exact]
      exact (execute_plain (splits.chosen request).1 clock first).1
    have log := (executeRouted_frame hash rt clock request).2
    simp only [sharded_step] at next
    rw [LiteStoreRuntime.advance, dispatchRequest_log]
    generalize Id.run (rt.executeRouted hash clock request) = run at *
    dsimp only
    rw [logResponse, isPersistedWrite, AofPersistence.appendRequest_done]
    cases write : mutates request run.1 with
    | true =>
      refine ⟨records ++ [(run.2.persistence.appended request).1], ?_, ?_, _, next.frame rfl rfl, ?_⟩
      · exact (log ▸ holds).appended request
      · intro record member
        rcases List.mem_append.mp member with member | member
        · exact keywise record member
        · rw [List.mem_singleton.mp member]
          exact first
      · rw [single, List.map_append]
        exact (dataAfter_append _ request).symm
    | false =>
      rw [answer] at write
      refine ⟨records, log ▸ holds, keywise, _, next.frame rfl rfl, ?_⟩
      rw [single, dataCommand_unlogged first write]

theorem Recorded.run {records : List PersistRecord} (h : Recorded hash router rt records)
    {events : List RuntimeEvent} (logged : ∀ event ∈ events, LoggedKeywise event) :
    ∃ records', Recorded hash router (events.foldl (LiteStoreRuntime.advance hash) rt) records' := by
  induction events generalizing rt records with
  | nil => exact ⟨records, h⟩
  | cons event events ih =>
    obtain ⟨records', next⟩ := h.advance (logged event (by simp))
    exact ih next fun e member => logged e (by simp [member])

/-- **Single-log mode re-shards.** For all numbers of workers and any hash function: after any run of
keywise requests with `n` workers, on a log that earlier ones wrote, and a restart on that log with
`m` workers, each stored key is held by its owner alone, before the restart, at each record it replays
and in every state after it, and the restart gives every key the value it had. -/
theorem single_log_reshards (hash : String → Nat) (n m : Nat) (n_pos : 0 < n) (m_pos : 0 < m)
    (earlier : List PersistRecord) (keywise : ∀ record ∈ earlier, Keywise record.request)
    (clocks clocks' : Nat → Clock ℚ) (events : List RuntimeEvent)
    (logged : ∀ event ∈ events, LoggedKeywise event) :
    let before := events.foldl (advance hash)
      (started hash n n_pos (earlier.flatMap PersistRecord.line) clocks)
    let restart : LiteStoreRuntime ℚ := create m m_pos before.persistence.file
    let restarted := started hash m m_pos before.persistence.file clocks'
    before.OwnsKeys hash ∧
      (∀ replayed, replayed <+: restart.persistence.replay →
        (Id.run (restart.replayPersistence hash clocks' replayed)).OwnsKeys hash) ∧
      (∀ k v, restarted.Holds k v ↔ before.Holds k v) ∧
      ∀ later : List RuntimeEvent, (∀ event ∈ later, LoggedKeywise event) →
        (later.foldl (advance hash) restarted).OwnsKeys hash := by
  intro before restart restarted
  obtain ⟨records, holds, keywise', s, splits, data⟩ :=
    (started_recorded hash n n_pos earlier keywise clocks).run logged
  have again := started_recorded hash m m_pos records keywise' clocks'
  rw [← holds.file] at again
  obtain ⟨s', splits', data'⟩ := again.splits
  refine ⟨splits.ownsKeys, fun replayed sub => ?_, fun k v => ?_, fun later logged' => ?_⟩
  · have whole : restart.persistence.Holds records := ⟨holds.file, rfl⟩
    have read : restart.persistence.replay = records.map PersistRecord.logged := whole.replay
    have keywise'' : ∀ record ∈ replayed, Keywise record.request := by
      intro record member
      have listed := sub.subset member
      rw [read] at listed
      obtain ⟨record', member', rfl⟩ := List.mem_map.mp listed
      exact keywise' record' member'
    obtain ⟨_, splits'', _⟩ := replayed_splits hash m m_pos before.persistence.file clocks' keywise''
    exact splits''.ownsKeys
  · rw [splits.holds_iff, splits'.holds_iff, data, data']
  · obtain ⟨_, _, _, _, splits'', _⟩ := again.run logged'
    exact splits''.ownsKeys

/-- Requests to one worker, with a refresh between them. -/
def oneWorkerEvents : List RuntimeEvent :=
  [.dispatch { command := .SET, args := ["a", "1"] } (Clock.still 1) .done,
   .dispatch { command := .DEL, args := ["d"] } (Clock.still 2) .done, .refresh fun _ => Clock.still 3,
   .dispatch { command := .SET, args := ["d", "2"] } (Clock.still 4) .done,
   .dispatch { command := .KEYS } (Clock.still 5) .done]

theorem one_worker_becomes_two :
    let before := oneWorkerEvents.foldl (advance Sha256.leading) (started Sha256.leading 1 (by decide)
      ([⟨7, { command := .SET, args := ["d", "old"] }⟩].flatMap PersistRecord.line) fun _ => Clock.still 0)
    let restarted := started Sha256.leading 2 (by decide) before.persistence.file fun _ => Clock.still 6
    before.OwnsKeys Sha256.leading ∧ restarted.OwnsKeys Sha256.leading ∧
      ∀ k v, restarted.Holds k v ↔ before.Holds k v := by
  obtain ⟨owns, _, same, later⟩ := single_log_reshards Sha256.leading 1 2 (by decide) (by decide)
    [⟨7, { command := .SET, args := ["d", "old"] }⟩] (by simp [Keywise]) (fun _ => Clock.still 0)
    (fun _ => Clock.still 6) oneWorkerEvents (by simp [oneWorkerEvents, LoggedKeywise, Keywise])
  have after := later [] (by simp)
  rw [List.foldl_nil] at after
  exact ⟨owns, after, same⟩

end LiteStoreRuntime
end LiteStore
