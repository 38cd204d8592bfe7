import LiteStore.Shard.Runtime
import LiteStore.Store.Coherent
import LiteStore.Worker.Process

/-!
# Two ways to replay

The in-process runtime replays a request with `StoreWorker.execute`: a pass, and `execute_command`
with a pass of its own. A worker process replays it with `apply_replay_request`: a pass, and the
call of the store for those commands that write. While the clock stands still the passes after
the first one find nothing to do (`drainDue_again`), so the two leave the same store, or raise the
same exception, for every command but `TTL`, which may delete a key on its own.
-/

namespace LiteStore
set_option autoImplicit false
open Py

section Wheel

variable {τ : Type} [LinearOrder τ] [Zero τ]

namespace TimingWheel

/-- The configuration and the origin of a wheel. -/
def frame (w : TimingWheel τ) : τ × Option τ := (w.tickSeconds, w.originTimestamp)

theorem visit_frame (now : τ) (tick : Int) (acc : List (TimerEntry τ) × TimingWheel τ) (key : String) :
    (visit now tick acc key).2.frame = acc.2.frame := by
  obtain ⟨due, w⟩ := acc
  simp only [visit]
  split
  · rfl
  · split
    · rfl
    · split <;> rfl

theorem drainTick_frame (now : τ) (acc : List (TimerEntry τ) × TimingWheel τ) (tick : Int) :
    (drainTick now acc tick).2.frame = acc.2.frame := by
  have steps (keys : List String) (acc : List (TimerEntry τ) × TimingWheel τ) :
      (keys.foldl (visit now tick) acc).2.frame = acc.2.frame := by
    induction keys generalizing acc with
    | nil => rfl
    | cons key keys ih => exact (ih _).trans (visit_frame now tick acc key)
  exact steps _ acc

/-- A drain keeps the frame and processes every tick up to the current one. -/
theorem popDueAt_frame (w : TimingWheel τ) (now : τ) (current : Int) :
    (w.popDueAt now current).2.frame = w.frame ∧
      current ≤ (w.popDueAt now current).2.lastProcessedTick := by
  have steps (ticks : List Int) (acc : List (TimerEntry τ) × TimingWheel τ) :
      (ticks.foldl (drainTick now) acc).2.frame = acc.2.frame := by
    induction ticks generalizing acc with
    | nil => rfl
    | cons tick ticks ih => exact (ih _).trans (drainTick_frame now acc tick)
  unfold popDueAt
  split
  · rename_i stale
    exact ⟨rfl, stale⟩
  · exact ⟨steps _ ([], w), le_refl _⟩

theorem popDueAt_stale {w : TimingWheel τ} {current : Int} (stale : current ≤ w.lastProcessedTick)
    (now : τ) : w.popDueAt now current = ([], w) := if_pos stale

end TimingWheel
end Wheel

/-! ## A pass made twice -/

namespace MemoryStore

variable {τ : Type} [LinearOrder τ] [Zero τ] {m : Type → Type} [PyMonad m] [TimeArith m τ]
  {s : MemoryStore τ} {t : τ}

omit [PyMonad m] [TimeArith m τ] in
theorem dropEntries_timingWheel (now : τ) (due : List (TimerEntry τ)) (acc : Nat × MemoryStore τ) :
    (due.foldl (dropEntry now) acc).2.timingWheel = acc.2.timingWheel := by
  induction due generalizing acc with
  | nil => rfl
  | cons entry due ih =>
    rw [List.foldl_cons, ih]
    obtain ⟨n, s⟩ := acc
    simp only [dropEntry]
    split
    · rfl
    · split
      · rfl
      · split <;> rfl

/-- A pass is the computation of a tick and the drain up to it. -/
theorem outcome_drainDue (s : MemoryStore τ) (t : τ) :
    PyMonad.outcome (s.drainDue (m := m) t) =
      PyMonad.outcome (TimeArith.floorTicks (m := m) t (s.timingWheel.originTimestamp.getD t)
        s.timingWheel.tickSeconds) >>= fun current => .ok (s.drainAt t current) := by
  simp only [drainDue, TimingWheel.popDue, TimingWheel.tickForTimestamp, PyMonad.outcome_bind,
    PyMonad.outcome_pure]
  cases PyMonad.outcome (TimeArith.floorTicks (m := m) t (s.timingWheel.originTimestamp.getD t)
    s.timingWheel.tickSeconds) <;> rfl

/-- **A second pass** at the same reading does nothing. -/
theorem drainDue_again {r : Nat × MemoryStore τ}
    (done : PyMonad.outcome (s.drainDue (m := m) t) = .ok r) :
    PyMonad.outcome (r.2.drainDue (m := m) t) = .ok (0, r.2) := by
  rw [outcome_drainDue, bind_eq_ok] at done
  obtain ⟨current, ticked, same⟩ := done
  cases same
  obtain ⟨frame, processed⟩ := (s.timingWheel.anchor t).popDueAt_frame t current
  have wheel : (s.drainAt t current).2.timingWheel = ((s.timingWheel.anchor t).popDueAt t current).2 :=
    dropEntries_timingWheel t _ _
  obtain ⟨seconds, origin⟩ := Prod.mk.inj frame
  rw [← wheel] at seconds origin processed
  -- The origin is known by now, so the reading has the same tick.
  have known : (s.drainAt t current).2.timingWheel.originTimestamp.getD t =
      s.timingWheel.originTimestamp.getD t := by
    rw [origin]
    rfl
  have seconds : (s.drainAt t current).2.timingWheel.tickSeconds = s.timingWheel.tickSeconds := seconds
  rw [outcome_drainDue, known, seconds, ticked]
  have anchored : (s.drainAt t current).2.timingWheel.anchor t = (s.drainAt t current).2.timingWheel := by
    generalize (s.drainAt t current).2.timingWheel = w at origin
    cases w
    simp only at origin
    subst origin
    rfl
  show Except.ok (drainAt _ t current) = _
  rw [drainAt, anchored, TimingWheel.popDueAt_stale processed]
  rfl

/-- A pass at `t` finds nothing to do. -/
def Idle (m : Type → Type) [PyMonad m] [TimeArith m τ] (s : MemoryStore τ) (t : τ) : Prop :=
  PyMonad.outcome (s.drainDue (m := m) t) = .ok (0, s)

/-! ## The two dispatchers -/

theorem Idle.get (h : s.Idle m t) (key : String) :
    PyMonad.outcome (s.get (m := m) (Clock.still t) key) = .ok (s.data.get? key, s) := by
  have passed : PyMonad.outcome (s.processExpirations (m := m) (Clock.still t) none) = .ok (0, s) := h
  simp only [MemoryStore.get, PyMonad.outcome_bind, passed, PyMonad.outcome_pure]
  rfl

theorem Idle.keys (h : s.Idle m t) (pattern : String) :
    PyMonad.outcome (s.keys (m := m) (Clock.still t) pattern) =
      .ok (s.data.keys.filter fun k => fnmatch k pattern, s) := by
  have passed : PyMonad.outcome (s.processExpirations (m := m) (Clock.still t) none) = .ok (0, s) := h
  simp only [MemoryStore.keys, PyMonad.outcome_bind, passed, PyMonad.outcome_pure]
  rfl

theorem Idle.getAll (h : s.Idle m t) (keys : List String) :
    PyMonad.outcome (getAll (m := m) s (Clock.still t) keys) = .ok (keys.map s.data.get?, s) := by
  induction keys with
  | nil => simp [LiteStore.getAll, PyMonad.outcome_pure]
  | cons key keys ih =>
    simp only [LiteStore.getAll, PyMonad.outcome_bind, h.get, Clock.drop_still, bind, Except.bind, ih,
      PyMonad.outcome_pure, List.map_cons]

end MemoryStore

section Replay

variable {τ : Type} [LinearOrder τ] [Zero τ] [Timestamp τ] {m : Type → Type} [PyMonad m] [TimeArith m τ]

omit [Timestamp τ] [TimeArith m τ] in
/-- An answer and a store, of which the store is kept. -/
theorem map_answer {α : Type} (x : m α) (answer : α → CommandResponse) (left : α → MemoryStore τ) :
    Except.map Prod.snd (PyMonad.outcome (x >>= fun a => pure (answer a, left a))) =
      PyMonad.outcome (x >>= fun a => pure (left a)) := by
  simp only [PyMonad.outcome_bind, PyMonad.outcome_pure]
  cases PyMonad.outcome x <;> rfl

/-- **One request** on a store on which a pass finds nothing to do. -/
theorem MemoryStore.Idle.replay {s : MemoryStore τ} {t : τ} (h : s.Idle m t) {request : CommandRequest}
    (other : request.command ≠ .TTL) :
    Except.map Prod.snd (PyMonad.outcome (executeCommand (m := m) request s (Clock.still t))) =
      PyMonad.outcome (s.applyReplayRequest (m := m) (Clock.still t) request) := by
  obtain ⟨command, args, i, j⟩ := request
  have passed : PyMonad.outcome (s.processExpirations (m := m) (Clock.still t) none) = .ok (0, s) := h
  -- Refused, or a command that only reads: nothing happens on either path.
  have refused (response : CommandResponse) : Except.map Prod.snd
      (PyMonad.outcome (pure (response, s) : m (CommandResponse × MemoryStore τ))) =
      PyMonad.outcome (pure s : m (MemoryStore τ)) := by
    rw [PyMonad.outcome_pure, PyMonad.outcome_pure]
    rfl
  have read {α : Type} {x : m (α × MemoryStore τ)} {a : α} (done : PyMonad.outcome x = .ok (a, s))
      (answer : α → CommandResponse) : Except.map Prod.snd
      (PyMonad.outcome (x >>= fun r => pure (answer r.1, r.2))) = PyMonad.outcome (pure s : m (MemoryStore τ)) := by
    rw [PyMonad.outcome_bind, done, PyMonad.outcome_pure]
    exact congrArg (Except.map Prod.snd) (PyMonad.outcome_pure (answer a, s))
  rw [applyReplayRequest, PyMonad.outcome_bind, passed]
  simp only [bind, Except.bind, Clock.drop_still]
  cases command
  case TTL => exact absurd rfl other
  case PING => rcases args with _ | ⟨key, rest⟩ <;> exact refused _
  case SET =>
    rcases args with _ | ⟨key, _ | ⟨value, _ | ⟨more, rest⟩⟩⟩
    case cons.cons.nil =>
      refine (map_answer (s.set (Clock.still t) key value) _ id).trans ?_
      simp only [PyMonad.outcome_bind, id, PyMonad.outcome_pure]
      cases PyMonad.outcome (s.set (m := m) (Clock.still t) key value) <;> rfl
    all_goals exact refused _
  case GET =>
    rcases args with _ | ⟨key, _ | ⟨more, rest⟩⟩
    case cons.nil => exact read (h.get key) _
    all_goals exact refused _
  case DEL =>
    rcases args with _ | ⟨key, _ | ⟨more, rest⟩⟩
    case cons.nil => exact map_answer (s.delete (Clock.still t) key) _ _
    all_goals exact refused _
  case EXPIRE =>
    rcases args with _ | ⟨key, _ | ⟨secondsRaw, _ | ⟨more, rest⟩⟩⟩
    case cons.cons.nil =>
      simp only [executeCommand, parseTtlSeconds]
      cases int? secondsRaw with
      | none => exact refused _
      | some seconds => exact map_answer (s.expire (Clock.still t) key seconds) _ _
    all_goals exact refused _
  case MGET =>
    rcases args with _ | ⟨key, keys⟩
    · exact refused _
    · exact read (h.getAll (key :: keys)) _
  case KEYS =>
    simp only [executeCommand]
    split
    · exact refused _
    · exact read (h.keys (args.headD "*")) fun names => arrayResponse ⟨.KEYS, args, i, j⟩ (names.map some)
  case FLUSHALL =>
    rcases args with _ | ⟨key, rest⟩
    · exact map_answer (s.flush (Clock.still t)) _ _
    · exact refused _

/-- Apart from its answer, the request runs on the store that its first pass leaves. -/
theorem StoreWorker.outcome_execute (w : StoreWorker τ) (t : τ) (request : CommandRequest) :
    Except.map (fun r => r.2.store) (PyMonad.outcome (w.execute (m := m) (Clock.still t) request)) =
      PyMonad.outcome (w.store.drainDue (m := m) t) >>= fun passed =>
        Except.map Prod.snd (PyMonad.outcome (executeCommand (m := m) request passed.2 (Clock.still t))) := by
  have pass : w.store.processExpirations (m := m) (Clock.still t) none = w.store.drainDue t := rfl
  simp only [StoreWorker.execute, PyMonad.outcome_bind, PyMonad.outcome_pure, pass, Clock.drop_still]
  cases PyMonad.outcome (w.store.drainDue (m := m) t) with
  | error e => rfl
  | ok passed =>
    simp only [bind, Except.bind]
    cases PyMonad.outcome (executeCommand (m := m) request passed.2 (Clock.still t)) <;> rfl

/-- A replayed request runs on the store that its first pass leaves; a second pass changes nothing. -/
theorem MemoryStore.outcome_replay (s : MemoryStore τ) (t : τ) (request : CommandRequest) :
    PyMonad.outcome (s.applyReplayRequest (m := m) (Clock.still t) request) =
      PyMonad.outcome (s.drainDue (m := m) t) >>= fun passed =>
        PyMonad.outcome (passed.2.applyReplayRequest (m := m) (Clock.still t) request) := by
  have pass (s : MemoryStore τ) : s.processExpirations (m := m) (Clock.still t) none = s.drainDue t := rfl
  cases first : PyMonad.outcome (s.drainDue (m := m) t) with
  | error e => rw [applyReplayRequest, PyMonad.outcome_bind, pass, first]; rfl
  | ok passed =>
    have again := drainDue_again first
    rw [applyReplayRequest, PyMonad.outcome_bind, pass, first]
    simp only [bind, Except.bind]
    rw [applyReplayRequest, PyMonad.outcome_bind, pass, again]
    rfl

/-- **One request** is replayed alike on both paths. -/
theorem StoreWorker.execute_replay (w : StoreWorker τ) (t : τ) {request : CommandRequest}
    (other : request.command ≠ .TTL) :
    Except.map (fun r => r.2.store) (PyMonad.outcome (w.execute (m := m) (Clock.still t) request)) =
      PyMonad.outcome (w.store.applyReplayRequest (m := m) (Clock.still t) request) := by
  rw [w.outcome_execute, w.store.outcome_replay]
  cases first : PyMonad.outcome (w.store.drainDue (m := m) t) with
  | error e => rfl
  | ok passed => exact MemoryStore.Idle.replay (MemoryStore.drainDue_again first) other

/-- Execute the requests of the records on one worker, as the in-process runtime replays those it
routes there. -/
def StoreWorker.executeRecords (w : StoreWorker τ) (clocks : Nat → Clock τ) :
    List PersistRecord → m (StoreWorker τ)
  | [] => return w
  | record :: records => do
    let (_, w) ← w.execute (clocks 0) record.request
    executeRecords w (fun i => clocks (i + 1)) records

/-- **The two replay paths agree.** On any store and at any fixed reading, whatever the timestamps and
their arithmetic: executing a request other than `TTL`, with any arguments, leaves the store that
replaying it leaves, or raises the same exception; and so does a whole log of such requests. -/
theorem replay_paths_agree (w : StoreWorker τ) (t : τ) :
    (∀ request : CommandRequest, request.command ≠ .TTL →
      Except.map (fun r => r.2.store) (PyMonad.outcome (w.execute (m := m) (Clock.still t) request)) =
        PyMonad.outcome (w.store.applyReplayRequest (m := m) (Clock.still t) request)) ∧
      ∀ records : List PersistRecord, (∀ record ∈ records, record.request.command ≠ .TTL) →
        Except.map StoreWorker.store
            (PyMonad.outcome (w.executeRecords (m := m) (fun _ => Clock.still t) records)) =
          PyMonad.outcome (WorkerProcess.replayRecords m w.store (fun _ => Clock.still t) records) := by
  refine ⟨fun request other => w.execute_replay t other, fun records others => ?_⟩
  induction records generalizing w with
  | nil =>
    rw [StoreWorker.executeRecords, WorkerProcess.replayRecords, PyMonad.outcome_pure, PyMonad.outcome_pure]
    rfl
  | cons record records ih =>
    have same := w.execute_replay (m := m) t (others record (by simp))
    rw [StoreWorker.executeRecords, WorkerProcess.replayRecords, PyMonad.outcome_bind, PyMonad.outcome_bind,
      ← same]
    cases PyMonad.outcome (w.execute (m := m) (Clock.still t) record.request) with
    | error e => rfl
    | ok r => exact ih r.2 fun record m => others record (List.mem_cons_of_mem _ m)

end Replay

/-- A log with a write, a write that changes nothing, a bad number and a read. -/
def replayedRecords : List PersistRecord :=
  [⟨0, { command := .SET, args := ["k", "v"] }⟩, ⟨1, { command := .EXPIRE, args := ["k", "5"] }⟩,
   ⟨2, { command := .DEL, args := ["k", "j"] }⟩, ⟨3, { command := .EXPIRE, args := ["k", "5s"] }⟩,
   ⟨4, { command := .KEYS, args := [] }⟩]

theorem mixed_records_replayed :
    let w : StoreWorker ℚ := ⟨"w0", 0, MemoryStore.fresh TimingWheel.default⟩
    Except.map StoreWorker.store
        (PyMonad.outcome (w.executeRecords (m := Id) (fun _ => Clock.still 7) replayedRecords)) =
      PyMonad.outcome (WorkerProcess.replayRecords Id w.store (fun _ => Clock.still 7) replayedRecords) :=
  (replay_paths_agree (m := Id) ⟨"w0", 0, MemoryStore.fresh TimingWheel.default⟩ 7).2 replayedRecords
    (by decide)

end LiteStore
