import LiteStore.Commands.Raising
import LiteStore.Floats
import LiteStore.Protocol.Grammar
import LiteStore.Protocol.Wire

/-!
# Commands with float clocks

With a float clock a command can raise. `Fits` is the condition under which a step does not, on the
store before the step and on its readings and arguments: the readings, the deadlines and, where a
deadline is before the wheel's origin, the times of a rebase are in range, and the seconds of an
`EXPIRE` are not too large for a float. A run answers every command exactly when each step meets it
(`run_settled_iff`).
-/

namespace LiteStore
set_option autoImplicit false
open Py Binary64 MemoryStore

namespace MemoryStore

variable {s : MemoryStore Number}

/-- The reading `t` of an operation that reads `first` first is in range of the wheel's origin. -/
def ReadingFits (s : MemoryStore Number) (first t : Number) : Prop :=
  InRange t (s.timingWheel.originTimestamp.getD first) s.timingWheel.tickSeconds

/-- After a pass at `first` the deadline `d` is in range, and so are the other deadlines and the time of
the last processed tick if `d` becomes the origin. -/
structure DeadlineFits (s : MemoryStore Number) (first d : Number) : Prop where
  tick : InRange d (min (s.timingWheel.originTimestamp.getD first) d) s.timingWheel.tickSeconds
  last : d < s.timingWheel.originTimestamp.getD first →
    0 ≤ max s.timingWheel.lastProcessedTick (s.currentTick first) → ∃ t,
      TimeArith.afterTicks (m := Except PyError) d
        (max s.timingWheel.lastProcessedTick (s.currentTick first)) s.timingWheel.tickSeconds = .ok t ∧
        InRange t d s.timingWheel.tickSeconds
  entries : d < s.timingWheel.originTimestamp.getD first → ∀ k d', s.expiresAt.get? k = some d' →
    ¬ s.Lapses first k → InRange d' d s.timingWheel.tickSeconds

/-- The readings of an `expire`: the second one is of a nested pass or, with `n` more seconds, the deadline. -/
def ExpireFits (s : MemoryStore Number) (clock : Clock Number) (key : String) (n : Int) : Prop :=
  s.ReadingFits (clock 0) (clock 0) ∧ (s.Live (clock 0) key →
    (n ≤ 0 → s.ReadingFits (clock 0) (clock 1)) ∧
    (0 < n → |(n : ℚ)| < overflow ∧ ∃ c : Finite, clock 1 = .finite c ∧
      s.DeadlineFits (clock 0) (.round (c.val + nearest n))))

/-- The readings of a `ttl`: the second one is subtracted from the deadline, the third is of a nested pass. -/
def TtlFits (s : MemoryStore Number) (clock : Clock Number) (key : String) : Prop :=
  s.ReadingFits (clock 0) (clock 0) ∧ (s.Live (clock 0) key → ∀ d, s.expiresAt.get? key = some d →
    ∃ x c : Finite, d = .finite x ∧ clock 1 = .finite c ∧ |x.val - c.val| < overflow ∧
      (truncate (nearest (x.val - c.val)) < 0 → s.ReadingFits (clock 0) (clock 2)))

theorem ticked_iff {first t : Number} : s.Ticked first t ↔ s.ReadingFits first t :=
  floorTicks_ok s.timingWheel.tick_pos

theorem schedulable_iff {first d : Number} : s.Schedulable first d ↔ s.DeadlineFits first d := by
  have range (t o : Number) : TimingWheel.HasTick t o s.timingWheel.tickSeconds ↔
      InRange t o s.timingWheel.tickSeconds := floorTicks_ok s.timingWheel.tick_pos
  constructor
  · rintro ⟨tick, last, entries⟩
    simp only [range] at tick last entries
    exact ⟨tick, last, entries⟩
  · rintro ⟨tick, last, entries⟩
    simp only [← range] at tick last entries
    exact ⟨tick, last, entries⟩

/-- A deadline that is in range is the rounded sum of a finite reading and the seconds. -/
theorem addSeconds_fits {first t : Number} {n : Int} :
    (∃ d, TimeArith.addSeconds (m := Except PyError) t n = .ok d ∧ s.DeadlineFits first d) ↔
      |(n : ℚ)| < overflow ∧ ∃ c : Finite, t = .finite c ∧
        s.DeadlineFits first (.round (c.val + nearest n)) := by
  constructor
  · rintro ⟨d, added, fits⟩
    obtain ⟨x, _, rfl, _⟩ := fits.tick
    obtain ⟨small, c, rfl, same⟩ := addSeconds_ok.mp added
    exact ⟨small, c, rfl, same ▸ fits⟩
  · rintro ⟨small, c, rfl, fits⟩
    obtain ⟨x, _, same, _⟩ := fits.tick
    exact ⟨_, same ▸ addSeconds_ok.mpr ⟨small, c, rfl, same⟩, fits⟩

theorem expire_fits (h : s.Coherent) {clock : Clock Number} {key : String} {n : Int} :
    Returns (s.expire (m := Except PyError) clock key n) ↔ s.ExpireFits clock key n := by
  rw [expire_ok h]
  simp only [ticked_iff, schedulable_iff, addSeconds_fits]
  rfl

theorem ttl_fits (h : s.Coherent) {clock : Clock Number} {key : String} :
    Returns (s.ttl (m := Except PyError) clock key) ↔ s.TtlFits clock key := by
  rw [ttl_ok h]
  simp only [ticked_iff, wholeSeconds_ok]
  refine and_congr_right fun _ => forall_congr' fun _ => forall₂_congr fun d _ => ?_
  constructor
  · rintro ⟨_, ⟨x, c, rfl, now, small, rfl⟩, later⟩
    exact ⟨x, c, rfl, now, small, later⟩
  · rintro ⟨x, c, rfl, now, small, later⟩
    exact ⟨_, ⟨x, c, rfl, now, small, rfl⟩, later⟩

end MemoryStore

/-! ## Commands -/

/-- The readings and arguments of a request that is not refused. -/
def CommandFits (request : CommandRequest) (s : MemoryStore Number) (clock : Clock Number) : Prop :=
  match request.command, request.args with
  | .SET, [_, _] => s.ReadingFits (clock 0) (clock 0)
  | .GET, [_] => s.ReadingFits (clock 0) (clock 0)
  | .DEL, [_] => s.ReadingFits (clock 0) (clock 0)
  | .EXPIRE, [key, secondsRaw] => ∀ n, parseTtlSeconds secondsRaw = some n → s.ExpireFits clock key n
  | .TTL, [key] => s.TtlFits clock key
  | .MGET, keys => ∀ i < keys.length, s.ReadingFits (clock 0) (clock i)
  | .KEYS, args => args.length ≤ 1 → s.ReadingFits (clock 0) (clock 0)
  | .FLUSHALL, [] => s.ReadingFits (clock 0) (clock 0)
  | _, _ => True

/-- **When a command returns.** -/
theorem executeCommand_fits {s : MemoryStore Number} (h : s.Coherent) (request : CommandRequest)
    (clock : Clock Number) :
    Returns (executeCommand (m := Except PyError) request s clock) ↔ CommandFits request s clock := by
  obtain ⟨command, args, i, j⟩ := request
  -- Nothing is read for a request that is refused.
  have refused (r : CommandResponse × MemoryStore Number) : Returns (Except.ok r : Except PyError _) ↔ True :=
    ⟨fun _ => trivial, fun _ => ⟨r, rfl⟩⟩
  cases command
  case PING => rcases args with _ | ⟨key, rest⟩ <;> exact refused _
  case SET =>
    rcases args with _ | ⟨key, _ | ⟨value, _ | ⟨more, rest⟩⟩⟩
    case cons.cons.nil =>
      apply (returns_then fun _ => ⟨_, rfl⟩).trans
      rw [returns_of_ok fun _ => set_ok]
      exact ticked_iff
    all_goals exact refused _
  case GET =>
    rcases args with _ | ⟨key, _ | ⟨more, rest⟩⟩
    case cons.nil =>
      apply (returns_then fun _ => ⟨_, rfl⟩).trans
      rw [returns_of_ok fun _ => get_ok]
      exact ticked_iff
    all_goals exact refused _
  case DEL =>
    rcases args with _ | ⟨key, _ | ⟨more, rest⟩⟩
    case cons.nil =>
      apply (returns_then fun _ => ⟨_, rfl⟩).trans
      rw [returns_of_ok fun _ => delete_ok]
      exact ticked_iff
    all_goals exact refused _
  case EXPIRE =>
    rcases args with _ | ⟨key, _ | ⟨secondsRaw, _ | ⟨more, rest⟩⟩⟩
    case cons.cons.nil =>
      cases parsed : parseTtlSeconds secondsRaw with
      | none =>
        simp only [executeCommand, CommandFits, parsed, reduceCtorEq, false_imp_iff, forall_const]
        exact refused _
      | some n =>
        simp only [executeCommand, CommandFits, parsed, Option.some.injEq, forall_eq']
        exact (returns_then fun _ => ⟨_, rfl⟩).trans (expire_fits h)
    all_goals exact refused _
  case TTL =>
    rcases args with _ | ⟨key, _ | ⟨more, rest⟩⟩
    case cons.nil => exact (returns_then fun _ => ⟨_, rfl⟩).trans (ttl_fits h)
    all_goals exact refused _
  case MGET =>
    rcases args with _ | ⟨key, keys⟩
    · simp only [executeCommand, CommandFits, List.length_nil, Nat.not_lt_zero, false_imp_iff, implies_true]
      exact refused _
    · apply (returns_then fun _ => ⟨_, rfl⟩).trans
      rw [getAll_ok h]
      simp only [ticked_iff]
      rfl
  case KEYS =>
    simp only [executeCommand, CommandFits]
    split
    · rename_i more
      exact ⟨fun _ few => absurd more (not_lt.mpr few), fun _ => ⟨_, rfl⟩⟩
    · rename_i few
      rw [imp_iff_right (not_lt.mp few)]
      apply (returns_then fun _ => ⟨_, rfl⟩).trans
      rw [returns_of_ok fun _ => keys_ok]
      exact ticked_iff
  case FLUSHALL =>
    rcases args with _ | ⟨key, rest⟩
    · apply (returns_then fun _ => ⟨_, rfl⟩).trans
      rw [returns_of_ok fun _ => flush_ok]
      exact ticked_iff
    · exact refused _

/-! ## Runs -/

/-- A step of a store: a command, a pass of `process_expirations` or a snapshot. -/
inductive StoreEvent where
  | command (request : CommandRequest) (clock : Clock Number)
  | processExpirations (clock : Clock Number) (now : Option Number)
  | snapshot (clock : Clock Number)

namespace StoreEvent

/-- The store after the step. -/
def next (s : MemoryStore Number) : StoreEvent → Except PyError (MemoryStore Number)
  | .command request clock => do
    let (_, s) ← executeCommand request s clock
    return s
  | .processExpirations clock now => do
    let (_, s) ← s.processExpirations clock now
    return s
  | .snapshot clock => do
    let (_, s) ← s.snapshot clock
    return s

/-- The step returns, and if its response is an error then values and deadlines are as before, apart
from keys whose deadline has come. -/
def Settles (s : MemoryStore Number) : StoreEvent → Prop
  | .command request clock => ∃ r, executeCommand (m := Except PyError) request s clock = .ok r ∧
      (r.1.kind = .ERROR → SameButDue (clock 0) s r.2)
  | .processExpirations clock now => Returns (s.processExpirations (m := Except PyError) clock now)
  | .snapshot clock => Returns (s.snapshot (m := Except PyError) clock)

/-- The readings and arguments of the step. -/
def Fits (s : MemoryStore Number) : StoreEvent → Prop
  | .command request clock => CommandFits request s clock
  | .processExpirations clock now => s.ReadingFits (now.getD (clock 0)) (now.getD (clock 0))
  | .snapshot clock => s.ReadingFits (clock 0) (clock 0)

/-- `P` holds of every step of the run, as far as it goes, and of the store before it. -/
def Throughout (P : MemoryStore Number → StoreEvent → Prop) : MemoryStore Number → List StoreEvent → Prop
  | _, [] => True
  | s, event :: events => P s event ∧ ∀ s', event.next s = .ok s' → Throughout P s' events

/-- The steps that replaying a request makes. -/
def replay (request : CommandRequest) (clock : Clock Number) : List StoreEvent :=
  .processExpirations clock none ::
    match request.command, request.args with
    | .SET, [_, _] => [.command request (clock.drop 1)]
    | .DEL, [_] => [.command request (clock.drop 1)]
    | .EXPIRE, [_, _] => [.command request (clock.drop 1)]
    | .FLUSHALL, [] => [.command request (clock.drop 1)]
    | _, _ => []

theorem applyReplayRequest_eq (s : MemoryStore Number) (clock : Clock Number) (request : CommandRequest) :
    s.applyReplayRequest (m := Except PyError) clock request =
      (replay request clock).foldlM (fun s event => event.next s) s := by
  obtain ⟨command, args, _, _⟩ := request
  rw [applyReplayRequest, replay, List.foldlM_cons, next]
  simp only [bind_assoc, pure_bind]
  refine bind_congr fun passed => ?_
  rcases args with _ | ⟨key, _ | ⟨value, _ | ⟨more, rest⟩⟩⟩ <;> cases command
  case nil.FLUSHALL =>
    simp only [List.foldlM_cons, List.foldlM_nil, next, executeCommand, bind_assoc, pure_bind]
  case cons.nil.DEL =>
    simp only [List.foldlM_cons, List.foldlM_nil, next, executeCommand, bind_assoc, pure_bind]
  case cons.cons.nil.SET =>
    simp only [List.foldlM_cons, List.foldlM_nil, next, executeCommand, bind_assoc, pure_bind, bind_pure]
  case cons.cons.nil.EXPIRE =>
    simp only [List.foldlM_cons, List.foldlM_nil, next, executeCommand, parseTtlSeconds]
    cases int? value with
    | none => rfl
    | some n => simp only [bind_assoc, pure_bind, bind_pure]
  all_goals rfl

variable {s : MemoryStore Number}

theorem next_coherent (h : s.Coherent) {event : StoreEvent} {s' : MemoryStore Number}
    (done : event.next s = .ok s') : s'.Coherent := by
  cases event with
  | command request clock =>
    obtain ⟨r, ran, same⟩ := bind_eq_ok.mp done
    cases same
    exact executeCommand_coherent h ran
  | processExpirations clock now =>
    obtain ⟨r, ran, same⟩ := bind_eq_ok.mp done
    cases same
    exact h.drainDue ran
  | snapshot clock =>
    obtain ⟨r, ran, same⟩ := bind_eq_ok.mp done
    cases same
    exact h.snapshot ran

/-- **A step** of a coherent store. -/
theorem settles_iff (h : s.Coherent) (event : StoreEvent) : event.Settles s ↔ event.Fits s := by
  cases event with
  | command request clock =>
    refine Iff.trans ?_ (executeCommand_fits h request clock)
    constructor
    · rintro ⟨r, ran, _⟩
      exact ⟨r, ran⟩
    · rintro ⟨r, ran⟩
      refine ⟨r, ran, fun error => ?_⟩
      rw [(executeCommand_harmless (m := Except PyError) ran).2 error]
      exact SameButDue.refl _ s
  | processExpirations clock now => exact (returns_of_ok fun _ => drainDue_ok).trans ticked_iff
  | snapshot clock => exact (returns_of_ok fun _ => snapshot_ok).trans ticked_iff

theorem throughout_iff (h : s.Coherent) (events : List StoreEvent) :
    Throughout (fun s event => event.Settles s) s events ↔ Throughout (fun s event => event.Fits s) s events := by
  induction events generalizing s with
  | nil => exact Iff.rfl
  | cons event events ih =>
    apply and_congr (settles_iff h event)
    exact forall₂_congr fun s' done => ih (next_coherent h done)

end StoreEvent

/-- **Command execution with a float clock.** From an empty store on a wheel of any tick and any number of
buckets, every step of a run returns, with errors that leave the store alone, exactly when every step's
readings and arguments fit the store before it. -/
theorem run_settled_iff (tick : Number) (count : Nat) (tick_pos : 0 < tick) (count_pos : 0 < count)
    (events : List StoreEvent) :
    StoreEvent.Throughout (fun s event => event.Settles s)
        (fresh (TimingWheel.fresh tick count tick_pos count_pos)) events ↔
      StoreEvent.Throughout (fun s event => event.Fits s)
        (fresh (TimingWheel.fresh tick count tick_pos count_pos)) events :=
  StoreEvent.throughout_iff (fresh_coherent (TimingWheel.fresh_indexed _ _ _ _) rfl) events

theorem unit_tick_pos : (0 : Number) < .round 1 := by decide +kernel

/-- A run whose deadline fits. -/
theorem timed_run_settles :
    StoreEvent.Throughout (fun s event => event.Settles s)
      (fresh (TimingWheel.fresh (Number.round 1) 4 unit_tick_pos (by decide)))
      [.command { command := .SET, args := ["k", "v"] } (Clock.still 0),
        .command { command := .EXPIRE, args := ["k", "5"] } (Clock.still 0)] := by
  refine (run_settled_iff (Number.round 1) 4 unit_tick_pos (by decide) _).mpr
    ⟨?_, fun s done => ⟨?_, fun _ _ => trivial⟩⟩
  · have : InRange 0 0 (.round 1) := by decide +kernel
    exact this
  · have wheel : (StoreEvent.next (fresh (TimingWheel.fresh (Number.round 1) 4 unit_tick_pos (by decide)))
        (.command { command := .SET, args := ["k", "v"] } (Clock.still 0))).map (fun s =>
          (s.timingWheel.originTimestamp, s.timingWheel.tickSeconds)) = .ok (some 0, .round 1) := by
      decide +kernel
    rw [done] at wheel
    obtain ⟨origin, tick⟩ := Prod.mk.inj (Except.ok.inj wheel)
    have late : ¬ Number.round (0 + nearest (5 : Int)) < (some (0 : Number)).getD 0 := by decide +kernel
    intro n parsed
    cases (show parseTtlSeconds "5" = some 5 by decide).symm.trans parsed
    refine ⟨?_, fun _ => ⟨fun negative => absurd negative (by decide), fun _ =>
      ⟨by decide +kernel, ⟨0, _⟩, rfl, ?_⟩⟩⟩
    · rw [ReadingFits, origin, tick]
      decide +kernel
    · refine ⟨?_, fun early => ?_, fun early => ?_⟩
      · rw [origin, tick]
        decide +kernel
      · exact absurd (origin ▸ early) late
      · exact absurd (origin ▸ early) late

/-! ## Seconds that are too large -/

/-- The digits of `10 ^ 309`. -/
def farDigits : List Char := '1' :: List.replicate 309 '0'

theorem far_seconds : parseTtlSeconds (String.ofList farDigits) = some (10 ^ 309) := by
  rw [parseTtlSeconds, int?, String.toList_ofList]
  decide +kernel

theorem far_parsed : parseCommand (String.ofList ("EXPIRE k ".toList ++ farDigits)) none none =
    .ok { command := .EXPIRE, args := ["k", String.ofList farDigits] } := by
  have dark : ∀ c ∈ farDigits, isSpace c = false := by
    intro c m
    rcases List.mem_cons.mp m with rfl | zero
    · decide
    · rw [List.eq_of_mem_replicate zero]
      decide
  have parsed : parseCommand (String.ofList ("EXPIRE k ".toList ++ farDigits ++ [])) none none = _ :=
    parseCommand_expire (List.cons_ne_nil _ _) dark (List.forall_mem_nil _) none none
  rwa [List.append_nil] at parsed

/-- The call behind an `EXPIRE` that returns. -/
theorem expire_returned {s : MemoryStore Number} {clock : Clock Number} {key secondsRaw : String} {n : Int}
    (parsed : parseTtlSeconds secondsRaw = some n) {r : CommandResponse × MemoryStore Number}
    (ran : executeCommand (m := Except PyError) { command := .EXPIRE, args := [key, secondsRaw] } s clock = .ok r) :
    ∃ timed, s.expire (m := Except PyError) clock key n = .ok timed := by
  simp only [executeCommand, parsed, bind_eq_ok] at ran
  obtain ⟨timed, expired, _⟩ := ran
  exact ⟨timed, expired⟩

/-- On a held key such an `EXPIRE` raises. -/
theorem far_expire_raises :
    ¬ ∀ (s : MemoryStore Number) (line : String) (requestId clientId : Option String)
      (request : CommandRequest) (clock : Clock Number), Reached (Except PyError) Number s →
      parseCommand line requestId clientId = .ok request →
      ∃ r, executeCommand (m := Except PyError) request s clock = .ok r ∧
        (r.1.kind = .ERROR → SameButDue (clock 0) s r.2) := by
  intro claim
  have raised : (executeCommand { command := .SET, args := ["k", "v"] } (fresh TimingWheel.default)
      (Clock.still 0) >>= fun r => r.2.expire (Clock.still 0) "k" (10 ^ 309) :
        Except PyError (Bool × MemoryStore Number)) = .error .overflowError := by decide +kernel
  have fits : InRange 0 0 Timestamp.tenth := by decide +kernel
  obtain ⟨r, stored⟩ : Returns (executeCommand { command := .SET, args := ["k", "v"] }
      (fresh TimingWheel.default) (Clock.still 0) : Except PyError (CommandResponse × MemoryStore Number)) :=
    (executeCommand_fits (fresh_coherent (TimingWheel.fresh_indexed _ _ _ _) rfl) _ _).mpr fits
  have reached : Reached (Except PyError) Number r.2 :=
    .command (.fresh TimingWheel.default) "SET k v" none none { command := .SET, args := ["k", "v"] }
      (Clock.still 0) r (by decide) (by decide +kernel) stored
  obtain ⟨r', ran, _⟩ := claim r.2 _ none none _ (Clock.still 0) reached far_parsed
  obtain ⟨timed, expired⟩ := expire_returned far_seconds ran
  have both : (executeCommand { command := .SET, args := ["k", "v"] } (fresh TimingWheel.default)
      (Clock.still 0) >>= fun r => r.2.expire (Clock.still 0) "k" (10 ^ 309) :
        Except PyError (Bool × MemoryStore Number)) = .ok timed := bind_eq_ok.mpr ⟨r, stored, expired⟩
  rw [raised] at both
  cases both

end LiteStore
