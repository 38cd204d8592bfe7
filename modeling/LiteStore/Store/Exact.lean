import LiteStore.Store.Coherent

/-!
# The store in exact time

Over the rationals every operation is a pass of `process_expirations` at its
first reading followed by a change of one key. `Valid` ties the store's deadlines
to the wheel's, `pass_spec` says which keys a pass removes, and the change
operations keep `Valid`.
-/

namespace LiteStore.MemoryStore
set_option autoImplicit false
open Py

/-- The store after `process_expirations` at time `t`. -/
def pass (s : MemoryStore ℚ) (t : ℚ) : MemoryStore ℚ := (Id.run (s.drainDue t)).2

/-- The number of keys `process_expirations` at time `t` answers. -/
def passCount (s : MemoryStore ℚ) (t : ℚ) : Nat := (Id.run (s.drainDue t)).1

/-- The store after `expire` has given a key the deadline `d`. -/
def withDeadline (s : MemoryStore ℚ) (key : String) (d : ℚ) : MemoryStore ℚ :=
  { s with
    expiresAt := s.expiresAt.set key d
    timingWheel := Id.run (s.timingWheel.schedule key d) }

/-- `delete` after its expiry pass. -/
def removeIfHeld (s : MemoryStore ℚ) (key : String) : MemoryStore ℚ :=
  if s.data.contains key then s.remove key else s

/-! ## The operations -/

section Operations

variable (s : MemoryStore ℚ) (clock : Clock ℚ)

theorem processExpirations_exact (now : Option ℚ) :
    Id.run (s.processExpirations clock now) =
      (s.passCount (now.getD (clock 0)), s.pass (now.getD (clock 0))) := rfl


theorem get_exact (key : String) :
    Id.run (s.get clock key) = ((s.pass (clock 0)).data.get? key, s.pass (clock 0)) := rfl

theorem delete_exact (key : String) :
    Id.run (s.delete clock key) =
      ((s.pass (clock 0)).data.contains key, (s.pass (clock 0)).removeIfHeld key) := by
  have run : Id.run (s.delete clock key) = if (s.pass (clock 0)).data.contains key then
    (true, (s.pass (clock 0)).remove key) else (false, s.pass (clock 0)) := rfl
  rw [run, removeIfHeld]
  cases (s.pass (clock 0)).data.contains key <;> rfl


theorem keys_exact (pattern : String) :
    Id.run (s.keys clock pattern) =
      ((s.pass (clock 0)).data.keys.filter fun k => fnmatch k pattern, s.pass (clock 0)) := rfl


theorem expire_exact (key : String) (ttlSeconds : Int) :
    Id.run (s.expire clock key ttlSeconds) =
      if (s.pass (clock 0)).data.contains key then
        if ttlSeconds ≤ 0 then (true, ((s.pass (clock 0)).pass (clock 1)).removeIfHeld key)
        else (true, (s.pass (clock 0)).withDeadline key (clock 1 + ttlSeconds))
      else (false, s.pass (clock 0)) := by
  simp only [expire, Id.run_bind, processExpirations_exact, Option.getD_none]
  rcases Bool.eq_false_or_eq_true ((s.pass (clock 0)).data.contains key) with held | absent
  · simp only [held, Bool.not_true, Bool.false_eq_true, if_false, if_true]
    split
    · simp only [Id.run_bind, delete_exact]; rfl
    · rfl
  · simp only [absent, Bool.not_false, Bool.false_eq_true, if_false, if_true]; rfl

theorem ttl_exact (key : String) :
    Id.run (s.ttl clock key) =
      if (s.pass (clock 0)).data.contains key then
        match (s.pass (clock 0)).expiresAt.get? key with
        | none => (-1, s.pass (clock 0))
        | some d =>
          if truncate (d - clock 1) < 0 then
            (-2, ((s.pass (clock 0)).pass (clock 2)).removeIfHeld key)
          else (truncate (d - clock 1), s.pass (clock 0))
      else (-2, s.pass (clock 0)) := by
  simp only [ttl, Id.run_bind, processExpirations_exact, Option.getD_none]
  rcases Bool.eq_false_or_eq_true ((s.pass (clock 0)).data.contains key) with held | absent
  · simp only [held, Bool.not_true, Bool.false_eq_true, if_false, if_true]
    rcases deadline : (s.pass (clock 0)).expiresAt.get? key with _ | d
    · rfl
    · have whole : Id.run (TimeArith.wholeSeconds d (clock 1)) = truncate (d - clock 1) := rfl
      simp only [Id.run_bind, whole]
      split
      · simp only [Id.run_bind, delete_exact]; rfl
      · rfl
  · simp only [absent, Bool.not_false, Bool.false_eq_true, if_false, if_true]; rfl

end Operations

/-! ## The invariant -/

/-- The invariant of a store in exact time: only held keys have deadlines, and the wheel
has exactly the store's deadlines. -/
structure Valid (s : MemoryStore ℚ) : Prop where
  wheel : s.timingWheel.Valid
  held : ∀ k d, s.expiresAt.get? k = some d → ∃ v, s.data.get? k = some v
  timed : ∀ k, s.timingWheel.deadline? k = s.expiresAt.get? k

theorem Valid.coherent {s : MemoryStore ℚ} (h : s.Valid) : s.Coherent := ⟨h.wheel.toIndexed, h.held, h.timed⟩

/-- Beyond store and wheel agreeing, validity is about the wheel. -/
theorem Coherent.valid {s : MemoryStore ℚ} (h : s.Coherent) (wheel : s.timingWheel.Valid) : s.Valid :=
  ⟨wheel, h.held, h.timed⟩

theorem fresh_valid {w : TimingWheel ℚ} (h : w.Valid) (empty : w.entriesByKey = Dict.empty) :
    (fresh w).Valid :=
  (fresh_coherent h.toIndexed empty).valid h

theorem put_valid {s : MemoryStore ℚ} (h : s.Valid) (key value : String) : (s.put key value).Valid :=
  (put_coherent h.coherent key value).valid (TimingWheel.cancel_spec h.wheel key).1

theorem remove_valid {s : MemoryStore ℚ} (h : s.Valid) (key : String) : (s.remove key).Valid :=
  (remove_coherent h.coherent key).valid (TimingWheel.cancel_spec h.wheel key).1

theorem removeIfHeld_valid {s : MemoryStore ℚ} (h : s.Valid) (key : String) :
    (s.removeIfHeld key).Valid := by
  unfold removeIfHeld
  split
  · exact remove_valid h key
  · exact h

theorem withDeadline_valid {s : MemoryStore ℚ} (h : s.Valid) {key : String}
    (held : s.data.contains key = true) (d : ℚ) : (s.withDeadline key d).Valid := by
  obtain ⟨valid, _, _, _, _, deadlines⟩ := TimingWheel.schedule_spec h.wheel key d
  exact (timed_coherent h.coherent held valid.toIndexed deadlines).valid valid

/-! ## The expiry pass -/

/-- The keys a pass at time `t` removes. -/
def Due (s : MemoryStore ℚ) (t : ℚ) (key : String) : Prop :=
  ∃ e, s.timingWheel.entriesByKey.get? key = some e ∧
    s.timingWheel.Fires t (s.timingWheel.tickAt t) e


/-- What a pass does to the three fields of the store. -/
theorem drainDue_eq {s : MemoryStore ℚ} (h : s.Valid) (t : ℚ) :
    let due := (Id.run (s.timingWheel.popDue t)).1
    Id.run (s.drainDue t) = (due.length,
      { data := s.data.filter fun e => e.1 ∉ due.map TimerEntry.key
        expiresAt := s.expiresAt.filter fun e => e.1 ∉ due.map TimerEntry.key
        timingWheel := (Id.run (s.timingWheel.popDue t)).2 }) :=
  drainAt_eq t (s.timingWheel.tickAt t) h.coherent

theorem mem_due_iff {s : MemoryStore ℚ} (h : s.Valid) (t : ℚ) (key : String) :
    key ∈ ((Id.run (s.timingWheel.popDue t)).1).map TimerEntry.key ↔ s.Due t key :=
  mem_dueAt_iff t (s.timingWheel.tickAt t) h.coherent key

theorem pass_data {s : MemoryStore ℚ} (h : s.Valid) (t : ℚ) (k v : String) :
    (s.pass t).data.get? k = some v ↔ s.data.get? k = some v ∧ ¬ s.Due t k :=
  drainAt_data t (s.timingWheel.tickAt t) h.coherent k v

theorem pass_expiresAt {s : MemoryStore ℚ} (h : s.Valid) (t : ℚ) (k : String) (d : ℚ) :
    (s.pass t).expiresAt.get? k = some d ↔ s.expiresAt.get? k = some d ∧ ¬ s.Due t k :=
  drainAt_expiresAt t (s.timingWheel.tickAt t) h.coherent k d

theorem pass_timingWheel {s : MemoryStore ℚ} (h : s.Valid) (t : ℚ) :
    (s.pass t).timingWheel = (Id.run (s.timingWheel.popDue t)).2 := by
  rw [pass, drainDue_eq h]

/-- A key that a pass removes had a deadline that is not after the reading. -/
theorem Due.deadline {s : MemoryStore ℚ} (h : s.Valid) {t : ℚ} {key : String} (due : s.Due t key) :
    ∃ d, s.expiresAt.get? key = some d ∧ d ≤ t := by
  obtain ⟨e, found, past, _⟩ := due
  refine ⟨e.expiresAt, ?_, past⟩
  rw [← h.timed, TimingWheel.deadline?_eq_some]
  exact ⟨e, found, rfl⟩

/-- The keys a pass removes, by their deadlines. -/
theorem due_iff {s : MemoryStore ℚ} (h : s.Valid) {t : ℚ} {key : String} :
    s.Due t key ↔ ∃ d, s.expiresAt.get? key = some d ∧ d ≤ t ∧
      TimingWheel.Scanned s.timingWheel.bucketCount s.timingWheel.lastProcessedTick
        (s.timingWheel.tickAt t) (s.timingWheel.tickAt d) := by
  constructor
  · rintro ⟨e, found, past, scanned⟩
    rw [h.wheel.tick_eq found] at scanned
    refine ⟨e.expiresAt, ?_, past, scanned⟩
    rw [← h.timed, TimingWheel.deadline?_eq_some]
    exact ⟨e, found, rfl⟩
  · rintro ⟨d, timed, past, scanned⟩
    rw [← h.timed, TimingWheel.deadline?_eq_some] at timed
    obtain ⟨e, found, rfl⟩ := timed
    rw [← h.wheel.tick_eq found] at scanned
    exact ⟨e, found, past, scanned⟩

/-- A store with a deadline has seen a timestamp, and the deadline is not before the first. -/
theorem Valid.origin {s : MemoryStore ℚ} (h : s.Valid) {key : String} {d : ℚ}
    (timed : s.expiresAt.get? key = some d) :
    ∃ o, s.timingWheel.originTimestamp = some o ∧ o ≤ d := by
  rw [← h.timed, TimingWheel.deadline?_eq_some] at timed
  obtain ⟨e, found, rfl⟩ := timed
  obtain ⟨o, known, after, _⟩ := h.wheel.ticked key e found
  exact ⟨o, known, after⟩

/-- What a pass leaves of the wheel's configuration and position. -/
theorem pass_frame {s : MemoryStore ℚ} (h : s.Valid) (t : ℚ) :
    (s.pass t).timingWheel.tickSeconds = s.timingWheel.tickSeconds ∧
      (s.pass t).timingWheel.bucketCount = s.timingWheel.bucketCount ∧
      (s.pass t).timingWheel.originTimestamp = some (s.timingWheel.originTimestamp.getD t) ∧
      (s.pass t).timingWheel.lastProcessedTick =
        max s.timingWheel.lastProcessedTick (s.timingWheel.tickAt t) := by
  obtain ⟨_, seconds, count, origin, last, _⟩ := TimingWheel.popDue_spec h.wheel t
  rw [pass_timingWheel h]
  exact ⟨seconds, count, origin, last⟩

/-- A pass keeps the invariant. -/
theorem pass_valid {s : MemoryStore ℚ} (h : s.Valid) (t : ℚ) : (s.pass t).Valid := by
  have wheel : (s.pass t).timingWheel.Valid := by
    rw [pass_timingWheel h]
    exact (TimingWheel.popDue_spec h.wheel t).1
  exact (drainAt_coherent t (s.timingWheel.tickAt t) h.coherent).valid wheel

end LiteStore.MemoryStore
