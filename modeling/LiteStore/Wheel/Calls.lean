import LiteStore.Lib.Machine
import LiteStore.Wheel.Exact

/-!
# Runs of the wheel

A `WheelCall` is one public call with its timestamp, and `wheelMachine` runs lists of calls in
exact time. Every wheel reached is `Valid`, so in every state `pop_due` hands over exactly the
entries that the scanned ticks reach (`popDue_result`). Before the first `pop_due` no tick has been
processed, and every deadline lies in a tick not before the origin's; then what is handed over
depends on the last call about each key only (`first_popDue`).
-/

namespace LiteStore
set_option autoImplicit false
open Py

/-- A public call of `TimingWheel`. -/
inductive WheelCall where
  | schedule (key : String) (expiresAt : ℚ)
  | cancel (key : String)
  | popDue (now : ℚ)
deriving DecidableEq

/-- The deadline of a key after a call that finds it with `d`. -/
def WheelCall.leaves (c : WheelCall) (key : String) (d : Option ℚ) : Option ℚ :=
  match c with
  | .schedule k expiresAt => if key = k then some expiresAt else d
  | .cancel k => if key = k then none else d
  | .popDue _ => d

namespace TimingWheel

/-- Make a call in exact time. -/
def performCall (w : TimingWheel ℚ) : WheelCall → List (TimerEntry ℚ) × TimingWheel ℚ
  | .schedule key expiresAt => ([], Id.run (w.schedule key expiresAt))
  | .cancel key => ([], w.cancel key)
  | .popDue now => Id.run (w.popDue now)

/-- The wheel as a machine on calls. -/
def wheelMachine : Machine (TimingWheel ℚ) WheelCall (List (TimerEntry ℚ)) := ⟨performCall⟩

/-- A call keeps the invariant and the wheel's configuration. -/
theorem performCall_valid {w : TimingWheel ℚ} (h : w.Valid) (c : WheelCall) :
    (w.performCall c).2.Valid ∧ (w.performCall c).2.tickSeconds = w.tickSeconds ∧
      (w.performCall c).2.bucketCount = w.bucketCount := by
  cases c with
  | schedule key expiresAt =>
    obtain ⟨valid, seconds, count, _⟩ := schedule_spec h key expiresAt
    exact ⟨valid, seconds, count⟩
  | cancel key =>
    obtain ⟨count, seconds, _⟩ := cancel_fields w key
    exact ⟨cancel_valid h key, seconds, count⟩
  | popDue now =>
    obtain ⟨valid, seconds, count, _⟩ := popDue_spec h now
    exact ⟨valid, seconds, count⟩

/-- Every wheel that calls reach is valid and has the configuration of the first one. -/
theorem calls_valid {w : TimingWheel ℚ} (h : w.Valid) (calls : List WheelCall) :
    (wheelMachine.after w calls).Valid ∧ (wheelMachine.after w calls).tickSeconds = w.tickSeconds ∧
      (wheelMachine.after w calls).bucketCount = w.bucketCount := by
  refine wheelMachine.invariant (I := fun w' => w'.Valid ∧ w'.tickSeconds = w.tickSeconds ∧
    w'.bucketCount = w.bucketCount) ⟨h, rfl, rfl⟩ ?_ calls
  rintro w' c ⟨valid, seconds, count⟩
  obtain ⟨valid', seconds', count'⟩ := performCall_valid valid c
  exact ⟨valid', seconds'.trans seconds, count'.trans count⟩

/-! ## What `pop_due` hands over -/

/-- A whole turn of the wheel past an entry's tick scans the entry. -/
theorem scanned_of_turn {count : Nat} (positive : 0 < count) {last current scheduled : Int}
    (turn : max last (scheduled - 1) + count ≤ current) : Scanned count last current scheduled := by
  have positive : (0 : Int) < count := by exact_mod_cast positive
  have low := Int.emod_nonneg (current - scheduled) positive.ne'
  have high := Int.emod_lt_of_pos (current - scheduled) positive
  -- The last tick up to `current` that falls into the bucket of `scheduled`.
  refine ⟨current - (current - scheduled) % count, by omega, by omega, by omega, ?_⟩
  have same := (Int.mod_modEq (current - scheduled) count).symm
  have shifted := Int.ModEq.sub_left current same
  rwa [sub_sub_cancel] at shifted

/-- What `pop_due` at `now` hands over and leaves, on a wheel of `count` buckets, when `now` falls into
the tick `current`. -/
structure PopResult (count : Nat) (current : Int) (now : ℚ) (w : TimingWheel ℚ)
    (result : List (TimerEntry ℚ) × TimingWheel ℚ) : Prop where
  /-- The scheduled entries whose deadline has come and whose bucket is scanned at or after their tick. -/
  listed : ∀ x, x ∈ result.1 ↔ ∃ e, w.entriesByKey.get? e.key = some e ∧ x = ⟨e.key, e.expiresAt⟩ ∧
    e.expiresAt ≤ now ∧ Scanned count w.lastProcessedTick current e.scheduledTick
  distinct : (result.1.map TimerEntry.key).Nodup
  ordered : result.1.Pairwise fun a b => a.expiresAt ≤ b.expiresAt
  kept : ∀ k e, result.2.entriesByKey.get? k = some e ↔
    w.entriesByKey.get? k = some e ∧ (⟨e.key, e.expiresAt⟩ : TimerEntry ℚ) ∉ result.1
  last : result.2.lastProcessedTick = max w.lastProcessedTick current
  /-- No deadline that has come is left for more than one turn of the wheel. -/
  turn : ∀ k e, w.entriesByKey.get? k = some e → e.expiresAt ≤ now →
    max w.lastProcessedTick (e.scheduledTick - 1) + count ≤ current →
    (⟨k, e.expiresAt⟩ : TimerEntry ℚ) ∈ result.1

/-- **The result of `pop_due`** in every wheel that calls with any timestamps reach from an empty one. -/
theorem popDue_result (tick : ℚ) (count : Nat) (tick_pos : 0 < tick) (count_pos : 0 < count)
    (calls : List WheelCall) (now : ℚ) :
    let w := wheelMachine.after (fresh tick count tick_pos count_pos) calls
    PopResult count ⌊(now - w.originTimestamp.getD now) / tick⌋ now w (Id.run (w.popDue now)) := by
  intro w
  obtain ⟨valid, seconds, buckets⟩ := calls_valid (fresh_valid tick count tick_pos count_pos) calls
  change w.Valid at valid
  obtain ⟨_, _, _, _, last, kept, listed, distinct, ordered⟩ := popDue_spec valid now
  have reading : ⌊(now - w.originTimestamp.getD now) / tick⌋ = w.tickAt now := by
    rw [tickAt, seconds]
    rfl
  have fires : ∀ e, w.Fires now (w.tickAt now) e ↔
      e.expiresAt ≤ now ∧ Scanned count w.lastProcessedTick (w.tickAt now) e.scheduledTick := by
    intro e
    rw [Fires, buckets]
    rfl
  have listed : ∀ x, x ∈ (Id.run (w.popDue now)).1 ↔ ∃ e, w.entriesByKey.get? e.key = some e ∧
      x = ⟨e.key, e.expiresAt⟩ ∧ e.expiresAt ≤ now ∧
      Scanned count w.lastProcessedTick (w.tickAt now) e.scheduledTick := by
    intro x
    rw [listed]
    exact exists_congr fun e => and_congr_right fun _ => by rw [fires, and_comm]
  -- An entry is handed over under its own key.
  have handed : ∀ k e, w.entriesByKey.get? k = some e →
      ((⟨e.key, e.expiresAt⟩ : TimerEntry ℚ) ∈ (Id.run (w.popDue now)).1 ↔
        w.Fires now (w.tickAt now) e) := by
    intro k e found
    have named := valid.keyed k e found
    rw [listed, fires]
    constructor
    · rintro ⟨e', found', same, fires'⟩
      have keys : e'.key = k := (congrArg TimerEntry.key same).symm.trans named
      rwa [valid.toIndexed.unique found found' keys] at fires'
    · intro fires'
      exact ⟨e, by rw [named]; exact found, rfl, fires'⟩
  rw [reading]
  refine ⟨listed, distinct, ordered, fun k e => ?_, last, fun k e found past turn => ?_⟩
  · rw [kept]
    exact and_congr_right fun found => not_congr (handed k e found).symm
  · have named := valid.keyed k e found
    subst named
    exact (handed e.key e found).mpr ((fires e).mpr ⟨past, scanned_of_turn count_pos turn⟩)

/-- A wheel of four buckets on which `a` is put back a whole turn. -/
def requeuedCalls : List WheelCall :=
  [.popDue 0, .schedule "a" (11 / 2), .popDue (21 / 4), .schedule "b" 20]

theorem requeued_entry_result :
    let w := wheelMachine.after (fresh 1 4 (by decide +kernel) (by decide)) requeuedCalls
    PopResult 4 ⌊((9 : ℚ) - w.originTimestamp.getD 9) / 1⌋ 9 w (Id.run (w.popDue 9)) :=
  popDue_result 1 4 (by decide +kernel) (by decide) requeuedCalls 9

example : ((wheelMachine.after (fresh 1 4 (by decide +kernel) (by decide)) requeuedCalls).performCall
    (.popDue 8)).1 = [] := by decide +kernel

/-! ## Before the first tick -/

/-- The deadline that the last call about a key leaves it. -/
def lastDeadline? (calls : List WheelCall) (key : String) : Option ℚ :=
  calls.foldl (fun d c => c.leaves key d) none

/-- A wheel that has processed no tick and whose deadlines are `deadline`. -/
structure Unstarted (w : TimingWheel ℚ) (deadline : String → Option ℚ) : Prop extends Valid w where
  unprocessed : w.lastProcessedTick = -1
  deadlines : ∀ k, w.deadline? k = deadline k

/-- One `schedule` or `cancel`. -/
theorem Unstarted.call {w : TimingWheel ℚ} {deadline : String → Option ℚ} (h : Unstarted w deadline)
    {c : WheelCall} (quiet : ∀ now, c ≠ .popDue now) :
    Unstarted (w.performCall c).2 fun k => c.leaves k (deadline k) := by
  cases c with
  | schedule key expiresAt =>
    obtain ⟨valid, _, _, last, _, deadlines⟩ := schedule_spec h.toValid key expiresAt
    refine ⟨valid, last.trans h.unprocessed, fun k => ?_⟩
    rw [WheelCall.leaves, ← h.deadlines]
    exact deadlines k
  | cancel key =>
    obtain ⟨valid, deadlines⟩ := cancel_spec h.toValid key
    obtain ⟨_, _, last, _⟩ := cancel_fields w key
    refine ⟨valid, last.trans h.unprocessed, fun k => ?_⟩
    rw [WheelCall.leaves, ← h.deadlines]
    exact deadlines k
  | popDue now => exact absurd rfl (quiet now)

/-- Any number of them. -/
theorem Unstarted.calls {w : TimingWheel ℚ} {deadline : String → Option ℚ} (h : Unstarted w deadline)
    {calls : List WheelCall} (quiet : ∀ now, .popDue now ∉ calls) :
    Unstarted (wheelMachine.after w calls) fun k =>
      calls.foldl (fun d c => c.leaves k d) (deadline k) := by
  induction calls generalizing w deadline with
  | nil => exact h
  | cons c calls ih =>
    have here : ∀ now, c ≠ .popDue now := fun now same => quiet now (same ▸ List.mem_cons_self)
    exact ih (h.call here) fun now m => quiet now (List.mem_cons_of_mem c m)

theorem fresh_unstarted (tick : ℚ) (count : Nat) (tick_pos count_pos) :
    Unstarted (fresh tick count tick_pos count_pos) fun _ => none :=
  ⟨fresh_valid tick count tick_pos count_pos, rfl, fun _ => rfl⟩

/-- The first pass over an unstarted wheel hands over what its deadlines say. -/
theorem Unstarted.popDue {w : TimingWheel ℚ} {deadline : String → Option ℚ} (h : Unstarted w deadline)
    (now : ℚ) (x : TimerEntry ℚ) :
    x ∈ (Id.run (w.popDue now)).1 ↔ deadline x.key = some x.expiresAt ∧ x.expiresAt ≤ now := by
  obtain ⟨_, _, _, _, _, _, listed, _⟩ := popDue_spec h.toValid now
  have listed := listed x
  rw [listed, ← h.deadlines, deadline?_eq_some]
  constructor
  · rintro ⟨e, found, ⟨past, _⟩, rfl⟩
    exact ⟨⟨e, found, rfl⟩, past⟩
  · rintro ⟨⟨e, found, same⟩, past⟩
    have named := h.keyed x.key e found
    refine ⟨e, by rw [named]; exact found, ⟨same ▸ past, ?_⟩, by rw [named, same]⟩
    -- The deadline's own tick is scanned: it is not before the origin's and not after that of `now`.
    obtain ⟨o, known, after, ticked⟩ := h.ticked x.key e found
    have least : 0 ≤ e.scheduledTick := by
      rw [ticked]
      exact Int.floor_nonneg.mpr (div_nonneg (by linarith) w.tick_pos.le)
    have reached : e.scheduledTick ≤ w.tickAt now := by
      rw [h.toValid.tick_eq found, tickAt, tickAt, known]
      simp only [Option.getD_some]
      exact Int.floor_mono (div_le_div_of_nonneg_right (by linarith) w.tick_pos.le)
    rw [h.unprocessed]
    exact ⟨e.scheduledTick, by omega, reached, le_refl _, Int.ModEq.refl _⟩

/-- The calls that schedule each key with its deadline, in this order. -/
def schedules (timers : List (String × ℚ)) : List WheelCall :=
  timers.map fun timer => .schedule timer.1 timer.2

/-- Distinct keys keep the deadlines they are scheduled with. -/
theorem lastDeadline?_schedules {timers : List (String × ℚ)} (distinct : (timers.map Prod.fst).Nodup)
    (key : String) (d : ℚ) : lastDeadline? (schedules timers) key = some d ↔ (key, d) ∈ timers := by
  have folded (start : Option ℚ) : (schedules timers).foldl (fun d c => c.leaves key d) start = some d ↔
      (key, d) ∈ timers ∨ (key ∉ timers.map Prod.fst ∧ start = some d) := by
    induction timers generalizing start with
    | nil => simp [schedules]
    | cons timer timers ih =>
      obtain ⟨k, t⟩ := timer
      obtain ⟨new, distinct⟩ := List.nodup_cons.mp distinct
      rw [schedules, List.map_cons, List.foldl_cons, ← schedules, ih distinct, WheelCall.leaves]
      by_cases here : key = k
      · subst here
        have absent : ∀ d, (key, d) ∉ timers := fun d m => new (List.mem_map.mpr ⟨_, m, rfl⟩)
        simp [absent, new, eq_comm]
      · simp [here]
  rw [lastDeadline?, folded]
  simp

/-- What the first `pop_due` at `now` hands over depends on `lastDeadline?` only. -/
structure FirstPop (now : ℚ) (calls : List WheelCall) (due : List (TimerEntry ℚ)) : Prop where
  listed : ∀ x, x ∈ due ↔ lastDeadline? calls x.key = some x.expiresAt ∧ x.expiresAt ≤ now
  distinct : (due.map TimerEntry.key).Nodup
  ordered : due.Pairwise fun a b => a.expiresAt ≤ b.expiresAt

/-- **Scheduling order does not matter.** On a fresh wheel of any tick and any number of buckets, after
any `schedule` and `cancel` calls with any deadlines, the first `pop_due` hands over exactly the keys
whose last call was a `schedule` with a deadline not after `now`, each once with that deadline and in
deadline order; and schedules of distinct keys in two orders give the same entries. -/
theorem first_popDue (tick : ℚ) (count : Nat) (tick_pos : 0 < tick) (count_pos : 0 < count) (now : ℚ) :
    let due (calls : List WheelCall) :=
      (Id.run ((wheelMachine.after (fresh tick count tick_pos count_pos) calls).popDue now)).1
    (∀ calls, (∀ t, .popDue t ∉ calls) → FirstPop now calls (due calls)) ∧
      ∀ timers timers' : List (String × ℚ), timers.Perm timers' → (timers.map Prod.fst).Nodup →
        ∀ x, x ∈ due (schedules timers) ↔ x ∈ due (schedules timers') := by
  intro due
  have first (calls : List WheelCall) (quiet : ∀ t, .popDue t ∉ calls) : FirstPop now calls (due calls) := by
    have unstarted := (fresh_unstarted tick count tick_pos count_pos).calls quiet
    obtain ⟨_, _, _, _, _, _, _, distinct, ordered⟩ := popDue_spec unstarted.toValid now
    exact ⟨unstarted.popDue now, distinct, ordered⟩
  refine ⟨first, fun timers timers' perm distinct x => ?_⟩
  have quiet (timers : List (String × ℚ)) : ∀ t, .popDue t ∉ schedules timers := by
    simp [schedules]
  have distinct' : (timers'.map Prod.fst).Nodup := (perm.map Prod.fst).nodup_iff.mp distinct
  rw [(first _ (quiet timers)).listed, (first _ (quiet timers')).listed,
    lastDeadline?_schedules distinct, lastDeadline?_schedules distinct', perm.mem_iff]

/-- A key scheduled twice, the second time before every deadline so far, and one cancelled. -/
theorem rescheduled_first_popDue :
    let due (calls : List WheelCall) :=
      (Id.run ((wheelMachine.after (fresh (1 / 10) 512 Timestamp.tenth_pos (by decide)) calls).popDue 8)).1
    FirstPop 8 [.schedule "a" 60, .schedule "b" 7, .schedule "a" (-3), .schedule "c" 1, .cancel "c"]
        (due [.schedule "a" 60, .schedule "b" 7, .schedule "a" (-3), .schedule "c" 1, .cancel "c"]) ∧
      ∀ x, x ∈ due (schedules [("a", 60), ("b", 7)]) ↔ x ∈ due (schedules [("b", 7), ("a", 60)]) := by
  obtain ⟨first, alike⟩ := first_popDue (1 / 10) 512 Timestamp.tenth_pos (by decide) 8
  exact ⟨first _ (by simp), alike _ _ (List.Perm.swap _ _ _) (by decide)⟩

end TimingWheel
end LiteStore
