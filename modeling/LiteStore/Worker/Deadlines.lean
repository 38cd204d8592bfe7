import LiteStore.Worker.Recovery

/-!
# Deadlines across a restart

A record keeps the seconds of an `EXPIRE` and no time, so replay counts them from
the restart. What decides is therefore the writes alone (`remember`): the last
`SET` of a key, unless it was deleted since, and the last `EXPIRE` that found it.
The store of the run holds at most what its writes are remembered for, with each
deadline counted from the reading of its `EXPIRE`; the store of a restart holds
all of it, with each deadline counted from the restart.
-/

namespace LiteStore
set_option autoImplicit false
open Py MemoryStore

/-- What is remembered of a key: the value of its last `SET`, and the seconds and the reading
of the last `EXPIRE` since. -/
structure Remembered where
  value : String
  expiry : Option (Int × ℚ)
deriving DecidableEq

/-- What the writes so far are remembered for. -/
abbrev Memory := String → Option Remembered

/-- A write and the reading an `EXPIRE` counts from. -/
def remember (m : Memory) (write : CommandRequest × ℚ) : Memory :=
  match write.1.command, write.1.args with
  | .SET, [key, value] => Function.update m key (some ⟨value, none⟩)
  | .DEL, [key] => Function.update m key none
  | .EXPIRE, [key, secondsRaw] =>
    match parseTtlSeconds secondsRaw with
    | none => m
    | some seconds =>
      if seconds ≤ 0 then Function.update m key none
      else Function.update m key ((m key).map fun r => ⟨r.value, some (seconds, write.2)⟩)
  | _, _ => m

/-! ## Stores and what is remembered -/

namespace MemoryStore

/-- The store holds only what is remembered, with its deadlines at `deadline`, and all of it
that is not yet due at `T`. -/
structure Tracks (deadline : Int × ℚ → ℚ) (T : ℚ) (m : Memory) (s : MemoryStore ℚ) : Prop
    extends Valid s where
  known : ∀ k v, s.data.get? k = some v → ∃ r, m k = some r ∧ r.value = v ∧
    s.expiresAt.get? k = r.expiry.map deadline
  whole : ∀ k r, m k = some r → (∀ e ∈ r.expiry, T < deadline e) → s.data.get? k = some r.value

variable {deadline : Int × ℚ → ℚ} {T : ℚ} {m : Memory} {s : MemoryStore ℚ}

/-- A pass up to `T` removes nothing that is not due at `T`. -/
theorem Tracks.pass (h : s.Tracks deadline T m) {t : ℚ} (before : t ≤ T) :
    (s.pass t).Tracks deadline T m := by
  refine ⟨pass_valid h.toValid t, fun k v found => ?_, fun k r known later => ?_⟩
  · obtain ⟨found, stays⟩ := (pass_data h.toValid t k v).mp found
    obtain ⟨r, known, value, timed⟩ := h.known k v found
    refine ⟨r, known, value, Option.ext fun d => ?_⟩
    rw [pass_expiresAt h.toValid, timed]
    exact ⟨And.left, fun same => ⟨same, stays⟩⟩
  · have found := h.whole k r known later
    refine (pass_data h.toValid t k r.value).mpr ⟨found, fun due => ?_⟩
    obtain ⟨d, timed, past⟩ := due.deadline h.toValid
    obtain ⟨r', known', _, timed'⟩ := h.known k r.value found
    cases known.symm.trans known'
    obtain ⟨e, expiry, rfl⟩ := Option.map_eq_some_iff.mp (timed'.symm.trans timed)
    exact absurd (later e expiry) (not_lt.mpr (past.trans before))

theorem Tracks.put (h : s.Tracks deadline T m) (key value : String) :
    (s.put key value).Tracks deadline T (Function.update m key (some ⟨value, none⟩)) := by
  refine ⟨put_valid h.toValid key value, fun k v found => ?_, fun k r known later => ?_⟩
  · rw [put_data] at found
    rw [put_expiresAt, Function.update_apply]
    split
    · rename_i same
      rw [if_pos same] at found
      exact ⟨_, rfl, Option.some.inj found, rfl⟩
    · rename_i other
      rw [if_neg other] at found
      exact h.known k v found
  · rw [Function.update_apply] at known
    rw [put_data]
    split
    · rename_i same
      rw [if_pos same] at known
      cases known
      rfl
    · rename_i other
      rw [if_neg other] at known
      exact h.whole k r known later

theorem Tracks.removeIfHeld (h : s.Tracks deadline T m) (key : String) :
    (s.removeIfHeld key).Tracks deadline T (Function.update m key none) := by
  refine ⟨removeIfHeld_valid h.toValid key, fun k v found => ?_, fun k r known later => ?_⟩
  · rw [removeIfHeld_data] at found
    rw [removeIfHeld_expiresAt h.toValid, Function.update_apply]
    split at found
    · cases found
    · rename_i other
      rw [if_neg other, if_neg other]
      exact h.known k v found
  · rw [Function.update_apply] at known
    rw [removeIfHeld_data]
    split at known
    · cases known
    · rename_i other
      rw [if_neg other]
      exact h.whole k r known later

theorem Tracks.withDeadline (h : s.Tracks deadline T m) {key : String}
    (held : s.data.contains key = true) (e : Int × ℚ) :
    (s.withDeadline key (deadline e)).Tracks deadline T
      (Function.update m key ((m key).map fun r => ⟨r.value, some e⟩)) := by
  refine ⟨withDeadline_valid h.toValid held _, fun k v found => ?_, fun k r known later => ?_⟩
  · have found : s.data.get? k = some v := found
    obtain ⟨r, known, value, timed⟩ := h.known k v found
    rw [withDeadline_expiresAt, Function.update_apply]
    split
    · rename_i same
      rw [← same, known]
      exact ⟨_, rfl, value, rfl⟩
    · exact ⟨r, known, value, timed⟩
  · show s.data.get? k = some r.value
    rw [Function.update_apply] at known
    split at known
    · rename_i same
      subst same
      obtain ⟨v, found⟩ := Dict.contains_iff.mp held
      obtain ⟨r', known', value, _⟩ := h.known k v found
      rw [known'] at known
      cases known
      rw [found, value]
    · exact h.whole k r known later

/-- A store that holds all that is remembered, with deadlines counted from `T` on. -/
structure Restores (T : ℚ) (m : Memory) (s : MemoryStore ℚ) : Prop
    extends Tracks (fun e => T + e.1) T m s where
  ahead : ∀ k r e, m k = some r → r.expiry = some e → 0 < e.1

theorem Restores.finds (h : s.Restores T m) {k : String} {r : Remembered} (known : m k = some r) :
    s.data.get? k = some r.value := by
  refine h.whole k r known fun e expiry => ?_
  have positive : (0 : ℚ) < e.1 := by exact_mod_cast h.ahead k r e known expiry
  linarith

theorem Restores.pass (h : s.Restores T m) : (s.pass T).Restores T m :=
  ⟨h.toTracks.pass le_rfl, h.ahead⟩

theorem Restores.put (h : s.Restores T m) (key value : String) :
    (s.put key value).Restores T (Function.update m key (some ⟨value, none⟩)) := by
  refine ⟨h.toTracks.put key value, fun k r e known expiry => ?_⟩
  rw [Function.update_apply] at known
  split at known
  · cases known
    cases expiry
  · exact h.ahead k r e known expiry

theorem Restores.removeIfHeld (h : s.Restores T m) (key : String) :
    (s.removeIfHeld key).Restores T (Function.update m key none) := by
  refine ⟨h.toTracks.removeIfHeld key, fun k r e known expiry => ?_⟩
  rw [Function.update_apply] at known
  split at known
  · cases known
  · exact h.ahead k r e known expiry

theorem Restores.withDeadline (h : s.Restores T m) {key : String}
    (held : s.data.contains key = true) {n : Int} (positive : 0 < n) (reading : ℚ) :
    (s.withDeadline key (T + n)).Restores T
      (Function.update m key ((m key).map fun r => ⟨r.value, some (n, reading)⟩)) := by
  refine ⟨h.toTracks.withDeadline held (n, reading), fun k r e known expiry => ?_⟩
  rw [Function.update_apply] at known
  split at known
  · obtain ⟨r', _, rfl⟩ := Option.map_eq_some_iff.mp known
    cases expiry
    exact positive
  · exact h.ahead k r e known expiry

/-- What such a store holds. -/
theorem Restores.lookups (h : s.Restores T m) (k : String) :
    s.data.get? k = (m k).map Remembered.value ∧
      s.expiresAt.get? k = (m k).bind fun r => r.expiry.map fun e => T + e.1 := by
  cases known : m k with
  | none =>
    have absent : s.data.get? k = none := by
      refine Option.eq_none_iff_forall_ne_some.mpr fun v found => ?_
      obtain ⟨r, known', _⟩ := h.known k v found
      cases known.symm.trans known'
    refine ⟨absent, Option.eq_none_iff_forall_ne_some.mpr fun d timed => ?_⟩
    obtain ⟨v, found⟩ := h.held k d timed
    cases absent.symm.trans found
  | some r =>
    have found := h.finds known
    obtain ⟨r', known', _, timed⟩ := h.known k r.value found
    cases known.symm.trans known'
    exact ⟨found, timed⟩

theorem fresh_restores (T : ℚ) :
    (fresh TimingWheel.default : MemoryStore ℚ).Restores T (fun _ => none) := by
  refine ⟨⟨flushed_plain.toValid, ?_, ?_⟩, ?_⟩
  · rintro k v ⟨⟩
  · rintro k r ⟨⟩
  · rintro k r e ⟨⟩

/-- **A replayed write** restores what it is remembered for. -/
theorem Restores.replay (h : s.Restores T m) {request : CommandRequest}
    (unflushed : request.command ≠ .FLUSHALL) (reading : ℚ) :
    (Id.run (s.applyReplayRequest (Clock.still T) request)).Restores T
      (remember m (request, reading)) := by
  have once := h.pass
  have twice := once.pass
  obtain ⟨command, args, i, j⟩ := request
  cases command
  case SET =>
    rcases args with _ | ⟨key, _ | ⟨value, _ | ⟨more, rest⟩⟩⟩
    case cons.cons.nil => exact twice.put key value
    all_goals exact once
  case DEL =>
    rcases args with _ | ⟨key, _ | ⟨more, rest⟩⟩
    case cons.nil =>
      have run : Id.run (s.applyReplayRequest (Clock.still T) ⟨.DEL, [key], i, j⟩) =
        (Id.run ((s.pass T).delete (Clock.still T) key)).2 := rfl
      rw [run, delete_exact]
      exact twice.removeIfHeld key
    all_goals exact once
  case EXPIRE =>
    rcases args with _ | ⟨key, _ | ⟨secondsRaw, _ | ⟨more, rest⟩⟩⟩
    case cons.cons.nil =>
      cases parsed : int? secondsRaw with
      | none =>
        simp only [applyReplayRequest, remember, parseTtlSeconds, parsed]
        exact once
      | some n =>
        have run : Id.run (s.applyReplayRequest (Clock.still T) ⟨.EXPIRE, [key, secondsRaw], i, j⟩) =
            (Id.run ((s.pass T).expire (Clock.still T) key n)).2 := by
          simp only [applyReplayRequest, parsed]
          rfl
        have next : remember m (⟨.EXPIRE, [key, secondsRaw], i, j⟩, reading) =
            if n ≤ 0 then Function.update m key none
            else Function.update m key ((m key).map fun r => ⟨r.value, some (n, reading)⟩) := by
          simp only [remember, parseTtlSeconds, parsed]
        rw [run, next, expire_exact]
        by_cases held : ((s.pass T).pass (Clock.still T 0)).data.contains key = true
        · rw [if_pos held]
          split
          · exact twice.pass.removeIfHeld key
          · rename_i positive
            exact twice.withDeadline held (by omega) reading
        · have unknown : m key = none := by
            have absent := Option.not_isSome_iff_eq_none.mp held
            refine Option.eq_none_iff_forall_ne_some.mpr fun r known => ?_
            cases absent.symm.trans (twice.finds known)
          have same : Function.update m key none = m := by
            rw [← unknown, Function.update_eq_self]
          rw [if_neg held, unknown, Option.map_none, same, ite_self]
          exact twice
    all_goals exact once
  case FLUSHALL => exact absurd rfl unflushed
  all_goals rcases args with _ | ⟨key, _ | ⟨value, rest⟩⟩ <;> exact once

/-! ## The run -/

/-- The request is a `SET`, a `DEL` or an `EXPIRE` that succeeds. -/
def writesAt (request : CommandRequest) (s : MemoryStore ℚ) (clock : Clock ℚ) : Bool :=
  match request.command, request.args with
  | .SET, [_, _] => true
  | .DEL, [_] => true
  | .EXPIRE, [key, secondsRaw] =>
    (parseTtlSeconds secondsRaw).isSome && (s.pass (clock 0)).data.contains key
  | _, _ => false

/-- Those are what the worker logs. -/
theorem isWrite_exact (request : CommandRequest) (s : MemoryStore ℚ) (clock : Clock ℚ) :
    isWrite request (Id.run (executeCommand request s clock)).1 = writesAt request s clock := by
  have writes : isWrite request (Id.run (executeCommand request s clock)).1 = true ↔
    Writes Id request s clock := isWrite_iff Id rfl
  rw [Bool.eq_iff_iff, writes]
  obtain ⟨command, args, i, j⟩ := request
  cases command <;> rcases args with _ | ⟨key, _ | ⟨value, _ | ⟨more, rest⟩⟩⟩ <;>
    simp only [Writes, writesAt, Bool.false_eq_true, Bool.and_eq_true]
  constructor
  · rintro ⟨parsed, p, passed, held⟩
    cases passed
    exact ⟨parsed, held⟩
  · rintro ⟨parsed, held⟩
    exact ⟨parsed, _, rfl, held⟩

/-- The commands of a timed run. -/
def Timed (command : CommandName) : Prop := command ∈ [.SET, .GET, .DEL, .EXPIRE]

/-- **A command** holds what it is remembered for. -/
theorem Tracks.command (h : s.Tracks (fun e => e.2 + e.1) T m) (request : CommandRequest)
    (timed : Timed request.command) {clock : Clock ℚ} (before : ∀ i, clock i ≤ T) :
    (Id.run (executeCommand request s clock)).2.Tracks (fun e => e.2 + e.1) T
      (if writesAt request s clock then remember m (request, clock 1) else m) := by
  have once := h.pass (before 0)
  obtain ⟨command, args, i, j⟩ := request
  cases command
  case SET =>
    rcases args with _ | ⟨key, _ | ⟨value, _ | ⟨more, rest⟩⟩⟩
    case cons.cons.nil => exact once.put key value
    all_goals exact h
  case GET =>
    rcases args with _ | ⟨key, _ | ⟨more, rest⟩⟩
    case cons.nil => exact once
    all_goals exact h
  case DEL =>
    rcases args with _ | ⟨key, _ | ⟨more, rest⟩⟩
    case cons.nil =>
      have run : (Id.run (executeCommand ⟨.DEL, [key], i, j⟩ s clock)).2 =
        (Id.run (s.delete clock key)).2 := rfl
      rw [run, delete_exact]
      exact once.removeIfHeld key
    all_goals exact h
  case EXPIRE =>
    rcases args with _ | ⟨key, _ | ⟨secondsRaw, _ | ⟨more, rest⟩⟩⟩
    case cons.cons.nil =>
      cases parsed : parseTtlSeconds secondsRaw with
      | none =>
        simp only [executeCommand, writesAt, parsed]
        exact h
      | some n =>
        have run : (Id.run (executeCommand ⟨.EXPIRE, [key, secondsRaw], i, j⟩ s clock)).2 =
            (Id.run (s.expire clock key n)).2 := by
          simp only [executeCommand, parsed]
          rfl
        have next : remember m (⟨.EXPIRE, [key, secondsRaw], i, j⟩, clock 1) =
            if n ≤ 0 then Function.update m key none
            else Function.update m key ((m key).map fun r => ⟨r.value, some (n, clock 1)⟩) := by
          simp only [remember, parsed]
        have write : writesAt ⟨.EXPIRE, [key, secondsRaw], i, j⟩ s clock =
            (s.pass (clock 0)).data.contains key := by
          simp only [writesAt, parsed, Option.isSome_some, Bool.true_and]
        rw [run, next, write, expire_exact]
        by_cases held : (s.pass (clock 0)).data.contains key = true
        · rw [if_pos held, if_pos held]
          split
          · exact (once.pass (before 1)).removeIfHeld key
          · exact once.withDeadline held (n, clock 1)
        · rw [if_neg held, if_neg held]
          exact once
    all_goals exact h
  all_goals simp [Timed] at timed

end MemoryStore

namespace WorkerProcess

/-- The writes of an event, with the reading an `EXPIRE` counts from. -/
def writesOf (status : WorkerStatus ℚ) (event : WorkerEvent ℚ) : List (CommandRequest × ℚ) :=
  match status, event.message with
  | .running w, some (.request msg) =>
    if writesAt msg.commandRequest w.store event.clock then [(msg.commandRequest, event.clock 1)] else []
  | _, _ => []

/-- What the writes are remembered for. -/
def memory (writes : List (CommandRequest × ℚ)) : Memory := writes.foldl remember fun _ => none

/-- Replay at `T` of records of the writes restores what they are remembered for. -/
theorem replay_restores {T : ℚ} {m : Memory} {s : MemoryStore ℚ} (h : s.Restores T m)
    {records : List PersistRecord} {writes : List (CommandRequest × ℚ)}
    (same : records.map PersistRecord.request = writes.map Prod.fst)
    (unflushed : ∀ write ∈ writes, write.1.command ≠ .FLUSHALL) :
    (Id.run (replayRecords Id s (fun _ => Clock.still T) (records.map PersistRecord.logged))).Restores
      T (writes.foldl remember m) := by
  induction writes generalizing records m s with
  | nil =>
    rw [List.map_nil, List.map_eq_nil_iff] at same
    rw [same]
    exact h
  | cons write writes ih =>
    obtain ⟨record, records, rfl, head, tail⟩ := List.map_eq_cons_iff.mp same
    have timeless : record.logged.request.command ≠ .FLUSHALL := by
      have here := unflushed write (by simp)
      rw [← head] at here
      exact here
    have first := h.replay timeless write.2
    have next : remember m (record.logged.request, write.2) = remember m write := by
      obtain ⟨request, reading⟩ := write
      have head : record.request = request := head
      rw [← head]
      rfl
    rw [next] at first
    exact ih first tail fun w member => unflushed w (by simp [member])

/-- The store tracks what the writes are remembered for, and the log holds the writes. -/
structure Retains (T : ℚ) (w : WorkerProcess ℚ) (writes : List (CommandRequest × ℚ)) : Prop where
  running : w.running = true
  tracks : w.store.Tracks (fun e => e.2 + e.1) T (memory writes)
  logged : ∃ records, w.LogHolds records ∧ records.map PersistRecord.request = writes.map Prod.fst
  unflushed : ∀ write ∈ writes, write.1.command ≠ .FLUSHALL

/-- The event brings a command of a timed run, its log append succeeds, and none of its
readings is after `T`. -/
def TimedLogged (T : ℚ) (event : WorkerEvent ℚ) : Prop :=
  Serves event ∧ event.append = .done ∧
    (∀ msg, event.message = some (.request msg) → Timed msg.command) ∧
    (∀ i, event.clock i ≤ T) ∧ ∀ i, event.passClock i ≤ T

variable (str : Dict String String → String)

theorem Retains.step {w : WorkerProcess ℚ} {writes : List (CommandRequest × ℚ)}
    {T : ℚ} (retains : w.Retains T writes) {event : WorkerEvent ℚ} (timed : TimedLogged T event) :
    ∃ w', WorkerProcess.step Id str (.running w) event = .running w' ∧
      w'.Retains T (writes ++ writesOf (.running w) event) := by
  obtain ⟨serves, success, timed, before, passBefore⟩ := timed
  obtain ⟨w', stepped, running, log, store⟩ := step_exact str retains.running serves success
  have left {m : Memory} (h : (w.handled event).1.Tracks (fun e => e.2 + e.1) T m) :
      w'.store.Tracks (fun e => e.2 + e.1) T m := by
    rcases store with same | same <;> rw [same]
    · exact h
    · exact h.pass (passBefore 0)
  obtain ⟨records, ⟨log', known, holds⟩, same⟩ := retains.logged
  rcases serves with idle | ⟨msg, request⟩
  · have handles : w.handled event = (w.store, w.persistence) := by rw [handled, idle]
    have none : writesOf (.running w) event = [] := by simp only [writesOf, idle]
    rw [handles] at log left
    rw [none, List.append_nil]
    exact ⟨w', stepped, running, left retains.tracks, ⟨records, ⟨log', log.trans known, holds⟩, same⟩,
      retains.unflushed⟩
  · have command := timed msg request
    have handles : w.handled event =
        ((Id.run (executeCommand msg.commandRequest w.store event.clock)).2,
          w.persistence.map fun log =>
            if writesAt msg.commandRequest w.store event.clock then
              (log.appended msg.commandRequest).2 else log) := by
      simp only [handled, request, isWrite_exact]
    have tracks := retains.tracks.command msg.commandRequest command before
    rw [handles, known, Option.map_some] at log
    rw [handles] at left
    by_cases write : writesAt msg.commandRequest w.store event.clock = true
    · have one : writesOf (.running w) event = [(msg.commandRequest, event.clock 1)] := by
        simp only [writesOf, request, write, if_true]
      rw [if_pos write] at log tracks
      rw [one]
      refine ⟨w', stepped, running, ?_, ⟨records ++ [⟨log'.nextSequence, msg.commandRequest⟩],
        ⟨_, log, holds.appended msg.commandRequest⟩, ?_⟩, ?_⟩
      · rw [memory, List.foldl_append]
        exact left tracks
      · rw [List.map_append, List.map_append, same]
        rfl
      · intro write member
        rcases List.mem_append.mp member with member | member
        · exact retains.unflushed write member
        · rw [List.mem_singleton.mp member]
          rintro flush
          have command : Timed .FLUSHALL := flush ▸ command
          simp [Timed] at command
    · have none : writesOf (.running w) event = [] := by
        simp only [writesOf, request, write, Bool.false_eq_true, if_false]
      rw [if_neg write] at log tracks
      rw [none, List.append_nil]
      exact ⟨w', stepped, running, left tracks, ⟨records, ⟨log', log, holds⟩, same⟩, retains.unflushed⟩

theorem Retains.run {w : WorkerProcess ℚ} {writes : List (CommandRequest × ℚ)}
    {T : ℚ} (retains : w.Retains T writes) {events : List (WorkerEvent ℚ)}
    (timed : ∀ event ∈ events, TimedLogged T event) :
    ∃ w', (machine Id str).after (.running w) events = .running w' ∧
      w'.Retains T (writes ++ (machine Id str).collect writesOf (.running w) events) := by
  induction events generalizing w writes with
  | nil => exact ⟨w, rfl, by rw [Machine.collect, List.append_nil]; exact retains⟩
  | cons event events ih =>
    obtain ⟨w', stepped, next⟩ := retains.step str (timed event (by simp))
    have step : ((machine Id str).step (.running w) event).2 = .running w' := stepped
    obtain ⟨w'', ran, last⟩ := ih next fun e member => timed e (by simp [member])
    refine ⟨w'', by rw [Machine.after_cons, step, ran], ?_⟩
    rw [Machine.collect, step, ← List.append_assoc]
    exact last

/-- **Deadlines across a restart.** After any run of `SET`, `GET`, `DEL` and `EXPIRE` requests on
an empty log, a restart at a later time `T` holds exactly the keys that the writes of the run are
remembered for, each with its value and its seconds counted from `T`. The run itself holds only
such keys, with the same values and the seconds counted from the reading of the `EXPIRE`, and
all those of them that are not due at `T`. -/
theorem recovered_at (fsyncPolicy : FsyncPolicy) (fsyncEveryN : Int) (clocks : Nat → Clock ℚ)
    (now : ℚ) (events : List (WorkerEvent ℚ)) (T : ℚ)
    (timed : ∀ event ∈ events, TimedLogged T event) :
    let begins := WorkerProcess.run Id str
      (some (AofPersistence.opened [] fsyncPolicy fsyncEveryN)) clocks now
    let kept := memory ((machine Id str).collect writesOf (begins []) events)
    ∃ w log, begins events = .running w ∧ w.persistence = some log ∧
      let s := Id.run (replayRecords Id (fresh TimingWheel.default) (fun _ => Clock.still T) log.replay)
      (∀ k, s.data.get? k = (kept k).map Remembered.value ∧
        s.expiresAt.get? k = (kept k).bind fun r => r.expiry.map fun e => T + (e.1 : ℚ)) ∧
      (∀ k v, w.store.data.get? k = some v → ∃ r, kept k = some r ∧ r.value = v ∧
        w.store.expiresAt.get? k = r.expiry.map fun e => e.2 + (e.1 : ℚ)) ∧
      ∀ k r, kept k = some r → (∀ e ∈ r.expiry, T < e.2 + (e.1 : ℚ)) →
        w.store.data.get? k = some r.value := by
  intro begins kept
  let w₀ : WorkerProcess ℚ := atLoop (fresh TimingWheel.default)
    (some (AofPersistence.opened [] fsyncPolicy fsyncEveryN)) now
  have retains : w₀.Retains T [] := by
    refine ⟨rfl, ⟨flushed_plain.toValid, ?_, ?_⟩, ⟨[], ⟨_, rfl, rfl, rfl⟩, rfl⟩, by simp⟩
    · rintro k v ⟨⟩
    · rintro k r ⟨⟩
  have runs (p : List (WorkerEvent ℚ)) : begins p = (machine Id str).after (.running w₀) p := by
    rw [machine_after]
    rfl
  obtain ⟨w, ran, last⟩ := retains.run str timed
  obtain ⟨records, ⟨log, known, holds⟩, same⟩ := last.logged
  refine ⟨w, log, (runs events).trans ran, known, fun k => ?_, last.tracks.known,
    last.tracks.whole⟩
  · rw [holds.replay]
    exact (replay_restores (fresh_restores T) same last.unflushed).lookups k

/-- A `SET` of two keys, an `EXPIRE` of one of them and a `DEL` of the other. -/
def expiringEvents : List (WorkerEvent ℚ) :=
  [eventAt 1 (some (.request ⟨"a", .SET, ["k", "v"], none⟩)) .done,
   eventAt 2 (some (.request ⟨"b", .SET, ["j", "u"], none⟩)) .done,
   eventAt 3 (some (.request ⟨"c", .EXPIRE, ["k", "10"], none⟩)) .done,
   eventAt 4 (some (.request ⟨"d", .DEL, ["j"], none⟩)) .done]

theorem expiring_events_recovered :
    let begins := WorkerProcess.run Id (fun _ => "")
      (some (AofPersistence.opened [] .EVERY_N 100)) (fun _ => Clock.still 0) 0
    let kept := memory ((machine Id (fun _ => "")).collect writesOf (begins []) expiringEvents)
    kept "k" = some ⟨"v", some (10, 3)⟩ ∧ kept "j" = none ∧
    ∃ w log, begins expiringEvents = .running w ∧ w.persistence = some log ∧
      let s := Id.run (replayRecords Id (fresh TimingWheel.default) (fun _ => Clock.still 9) log.replay)
      (∀ k, s.data.get? k = (kept k).map Remembered.value ∧
        s.expiresAt.get? k = (kept k).bind fun r => r.expiry.map fun e => 9 + (e.1 : ℚ)) ∧
      (∀ k v, w.store.data.get? k = some v → ∃ r, kept k = some r ∧ r.value = v ∧
        w.store.expiresAt.get? k = r.expiry.map fun e => e.2 + (e.1 : ℚ)) ∧
      ∀ k r, kept k = some r → (∀ e ∈ r.expiry, 9 < e.2 + (e.1 : ℚ)) →
        w.store.data.get? k = some r.value := by
  refine ⟨by decide +kernel, by decide +kernel, ?_⟩
  refine recovered_at (fun _ => "") .EVERY_N 100 (fun _ => Clock.still 0) 0 expiringEvents 9 ?_
  simp only [expiringEvents, List.forall_mem_cons, List.not_mem_nil, false_implies, implies_true,
    and_true]
  refine ⟨?_, ?_, ?_, ?_⟩ <;> norm_num [TimedLogged, Serves, eventAt, Timed]

/-- Readings that never decrease, from one time to another. -/
def Chronological : ℚ → List (WorkerEvent ℚ) → ℚ → Prop
  | first, [], last => first ≤ last
  | first, event :: events, last =>
    first ≤ event.clock 0 ∧ Monotone event.clock ∧ (∀ i, event.clock i ≤ event.now) ∧
      event.now ≤ event.passClock 0 ∧ Monotone event.passClock ∧
      ∃ next, (∀ i, event.passClock i ≤ next) ∧ Chronological next events last

/-- A key whose deadline has passed is back after a restart. -/
theorem expired_key_back :
    ¬ ∀ (str : Dict String String → String) (fsyncPolicy : FsyncPolicy) (fsyncEveryN : Int)
      (clocks : Nat → Clock ℚ) (now : ℚ) (events : List (WorkerEvent ℚ)) (T : ℚ),
      (∀ event ∈ events, TimedLogged T event) → Chronological now events T →
      ∃ w log, WorkerProcess.run Id str (some (AofPersistence.opened [] fsyncPolicy fsyncEveryN)) clocks
          now events = .running w ∧ w.persistence = some log ∧
        let s := Id.run (replayRecords Id (fresh TimingWheel.default) (fun _ => Clock.still T) log.replay)
        ∀ k v deadline, (s.data.get? k = some v ∧ s.expiresAt.get? k = deadline) ↔
          (w.store.data.get? k = some v ∧ w.store.expiresAt.get? k = deadline ∧
            ∀ d ∈ deadline, T < d) := by
  intro claim
  let events : List (WorkerEvent ℚ) :=
    [eventAt 1 (some (.request ⟨"a", .SET, ["k", "v"], none⟩)) .done,
     eventAt 2 (some (.request ⟨"b", .EXPIRE, ["k", "10"], none⟩)) .done]
  obtain ⟨w, log, ended, known, same⟩ := claim (fun _ => "") .EVERY_N 100 (fun _ => Clock.still 0) 0
    events 100 (by norm_num [events, TimedLogged, Serves, eventAt, Timed]) (by
      have still (t : ℚ) : Monotone (Clock.still t) := fun _ _ _ => le_rfl
      refine ⟨?_, still 1, ?_, ?_, still 1, 1, ?_, ?_, still 2, ?_, ?_, still 2, 2, ?_, ?_⟩ <;>
        norm_num [eventAt, Chronological])
  have reached : (WorkerProcess.run Id (fun _ => "") (some (AofPersistence.opened [] .EVERY_N 100))
      (fun _ => Clock.still 0) 0 events).worker?.map (fun w =>
        (w.store.expiresAt.get? "k", w.persistence.map fun log =>
          let s := Id.run (replayRecords Id (fresh TimingWheel.default)
            (fun _ => Clock.still (100 : ℚ)) log.replay)
          (s.data.get? "k", s.expiresAt.get? "k"))) = some (some 12, some (some "v", some 110)) := by
    decide +kernel
  rw [ended] at reached
  simp only [WorkerStatus.worker?, known, Option.map_some, Prod.mk.injEq, Option.some.injEq] at reached
  obtain ⟨timed, found, later⟩ := reached
  obtain ⟨_, deadline, _⟩ := (same "k" "v" (some 110)).mp ⟨found, later⟩
  rw [timed] at deadline
  exact absurd deadline (by decide +kernel)

end WorkerProcess
end LiteStore
