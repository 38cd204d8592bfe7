import LiteStore.Store.Calls

/-!
# Expiry within one tick

A pass scans each tick once. An entry is missed when a pass reaches its tick
before its deadline, or when the deadline falls into a tick that is already
processed: the wheel puts the key back into the bucket it has just left and comes
round to it a whole turn later. While no call does that (`Punctual`), every
pending entry lies ahead of the last processed tick (`Timely`), and a pass drops
every key whose deadline is at least one tick old.
-/

namespace LiteStore.MemoryStore
set_option autoImplicit false
open Py TimingWheel

/-! ## The ticks of a wheel -/

section Ticks

variable (w : TimingWheel ℚ) {d t : ℚ}

theorem tickAt_mono (le : d ≤ t) : w.tickAt d ≤ w.tickAt t := by
  unfold tickAt
  cases w.originTimestamp with
  | none => simp
  | some o =>
    simp only [Option.getD_some]
    exact Int.floor_mono (div_le_div_of_nonneg_right (by linarith) w.tick_pos.le)

/-- A deadline one tick old lies in an earlier tick. -/
theorem tickAt_lt_of_tick {o : ℚ} (known : w.originTimestamp = some o)
    (old : d ≤ t - w.tickSeconds) : w.tickAt d < w.tickAt t := by
  have shift : (d - o) / w.tickSeconds + 1 ≤ (t - o) / w.tickSeconds := by
    rw [div_add_one w.tick_pos.ne']
    exact div_le_div_of_nonneg_right (by linarith) w.tick_pos.le
  have floors := Int.floor_mono shift
  rw [Int.floor_add_one] at floors
  simp only [tickAt, known, Option.getD_some]
  omega

end Ticks

/-- Before its first timestamp a wheel is at tick zero. -/
theorem tickAt_unanchored {w : TimingWheel ℚ} (unknown : w.originTimestamp = none) (t : ℚ) :
    w.tickAt t = 0 := by
  simp [tickAt, unknown]

theorem pass_tickAt_self {s : MemoryStore ℚ} (h : s.Valid) (t : ℚ) :
    (s.pass t).timingWheel.tickAt t = s.timingWheel.tickAt t := by
  obtain ⟨seconds, _, origin, _⟩ := pass_frame h t
  simp only [tickAt, seconds, origin, Option.getD_some]

theorem pass_tickAt {s : MemoryStore ℚ} (h : s.Valid) (t d : ℚ) {o : ℚ}
    (known : s.timingWheel.originTimestamp = some o) :
    (s.pass t).timingWheel.tickAt d = s.timingWheel.tickAt d := by
  obtain ⟨seconds, _, origin, _⟩ := pass_frame h t
  simp only [tickAt, seconds, origin, known, Option.getD_some]

/-! ## Expiry in time -/

/-- The key is neither left held by a pass that comes one tick after its deadline, nor read
by any later `get` until it is set again. -/
def ExpiredInTime (s : MemoryStore ℚ) (c : StoreCall) : Prop :=
  ∀ p ∈ s.passes c, ∀ k d, p.1.expiresAt.get? k = some d → d ≤ p.2 - p.1.timingWheel.tickSeconds →
    (p.1.pass p.2).data.get? k = none ∧
    ((∀ v, c.op ≠ .set k v) → ∀ later : List StoreCall, (∀ c' ∈ later, ∀ v, c'.op ≠ .set k v) →
      ∀ clock, (Id.run ((machine.after (s.perform c).2 later).get clock k)).1 = none)

/-- The key is held and no deadline of it has come at `t`. -/
def liveAt (s : MemoryStore ℚ) (t : ℚ) (key : String) : Bool :=
  s.data.contains key && (s.expiresAt.get? key).all fun d => decide (t < d)

/-- The readings of the passes a call makes. -/
def passReadings (s : MemoryStore ℚ) (c : StoreCall) : List ℚ :=
  match c.op with
  | .expire key ttlSeconds =>
    if s.liveAt c.start key && decide (ttlSeconds ≤ 0) then [c.start, c.clock 1] else [c.start]
  | .ttl key =>
    if (s.expiresAt.get? key).any fun d => decide (c.start < d) && decide (d + 1 ≤ c.clock 1) then
      [c.start, c.clock 2] else [c.start]
  | _ => [c.start]

/-- The deadline a call sets. -/
def newDeadline? (s : MemoryStore ℚ) (c : StoreCall) : Option ℚ :=
  match c.op with
  | .expire key ttlSeconds =>
    if s.liveAt c.start key && decide (0 < ttlSeconds) then some (c.clock 1 + ttlSeconds) else none
  | _ => none

/-- The tick of a timestamp once the call has begun. -/
def tickDuring (s : MemoryStore ℚ) (c : StoreCall) (t : ℚ) : Int :=
  ⌊(t - s.timingWheel.originTimestamp.getD c.start) / s.timingWheel.tickSeconds⌋

/-- With more than one bucket, no pass of the call comes in the tick of a pending deadline
before that deadline, and the call sets no deadline in the tick of its first reading. -/
def Punctual (s : MemoryStore ℚ) (c : StoreCall) : Prop :=
  s.timingWheel.bucketCount = 1 ∨
    (∀ r ∈ s.passReadings c, ∀ d ∈ s.expiresAt.values, r < d → s.tickDuring c r < s.tickDuring c d) ∧
    ∀ d ∈ s.newDeadline? c, s.tickDuring c c.start < s.tickDuring c d

instance (s : MemoryStore ℚ) (c : StoreCall) : Decidable (Punctual s c) :=
  inferInstanceAs (Decidable (_ ∨ (∀ r ∈ _, ∀ d ∈ _, _ → _) ∧ ∀ d ∈ s.newDeadline? c, _))

/-! ## The invariant -/

/-- No reading so far is after `t`, and every pending deadline lies ahead of the last
processed tick, or in it when each tick scans the only bucket. -/
structure Timely (s : MemoryStore ℚ) (t : ℚ) : Prop extends Valid s where
  anchored : ∀ o, s.timingWheel.originTimestamp = some o → o ≤ t
  reached : s.timingWheel.lastProcessedTick ≤ s.timingWheel.tickAt t
  ahead : ∀ k d, s.expiresAt.get? k = some d →
    s.timingWheel.lastProcessedTick < s.timingWheel.tickAt d ∨
      s.timingWheel.bucketCount = 1 ∧ s.timingWheel.lastProcessedTick = s.timingWheel.tickAt d

variable {s : MemoryStore ℚ} {t t' : ℚ}

theorem Timely.mono (h : Timely s t) (le : t ≤ t') : Timely s t' where
  toValid := h.toValid
  anchored o known := le_trans (h.anchored o known) le
  reached := le_trans h.reached (tickAt_mono _ le)
  ahead := h.ahead

theorem start_timely (tick : ℚ) (count : Nat) (tick_pos count_pos) (t : ℚ) :
    Timely (start tick count tick_pos count_pos) t where
  toValid := start_valid tick count tick_pos count_pos
  anchored := by intro o known; cases known
  reached := by
    rw [tickAt_unanchored rfl]
    show (-1 : Int) ≤ 0
    omega
  ahead := by intro k d timed; cases timed

/-- A pass leaves no key whose deadline is one tick old. -/
theorem Timely.expired (h : Timely s t) {k : String} {d : ℚ} (timed : s.expiresAt.get? k = some d)
    (old : d ≤ t - s.timingWheel.tickSeconds) : (s.pass t).data.get? k = none := by
  obtain ⟨o, known, _⟩ := h.origin timed
  have passed := tickAt_lt_of_tick s.timingWheel known old
  have past : d ≤ t := by linarith [s.timingWheel.tick_pos]
  have due : s.Due t k := by
    rw [due_iff h.toValid]
    refine ⟨d, timed, past, ?_⟩
    rcases h.ahead k d timed with ahead | ⟨single, here⟩
    · exact ⟨_, ahead, passed.le, le_rfl, Int.ModEq.refl _⟩
    · refine ⟨_, by omega, le_rfl, passed.le, ?_⟩
      rw [single]
      exact Int.modEq_one
  refine Option.eq_none_iff_forall_ne_some.mpr fun v found => ?_
  exact ((pass_data h.toValid t k v).mp found).2 due

/-- A pass that does not come in the tick of a pending deadline before it keeps `Timely`. -/
theorem Timely.pass (h : Timely s t)
    (punctual : s.timingWheel.bucketCount = 1 ∨
      ∀ k d, s.expiresAt.get? k = some d → t < d → s.timingWheel.tickAt t < s.timingWheel.tickAt d) :
    Timely (s.pass t) t := by
  obtain ⟨_, count, origin, last⟩ := pass_frame h.toValid t
  have last : (s.pass t).timingWheel.lastProcessedTick = s.timingWheel.tickAt t := by
    rw [last, max_eq_right h.reached]
  refine ⟨pass_valid h.toValid t, ?_, ?_, ?_⟩
  · intro o known
    rw [origin] at known
    cases known
    cases seen : s.timingWheel.originTimestamp with
    | none => exact le_rfl
    | some o => exact h.anchored o seen
  · rw [last, pass_tickAt_self h.toValid]
  · intro k d timed
    obtain ⟨timed, stays⟩ := (pass_expiresAt h.toValid t k d).mp timed
    obtain ⟨o, known, _⟩ := h.origin timed
    rw [last, count, pass_tickAt h.toValid t d known]
    rcases lt_or_ge t d with before | past
    · have le := tickAt_mono s.timingWheel before.le
      rcases punctual with single | strict
      · rcases le.lt_or_eq with ahead | here
        · exact Or.inl ahead
        · exact Or.inr ⟨single, here⟩
      · exact Or.inl (strict k d timed before)
    · -- A deadline that has come and is not due was in the last processed tick.
      have le := tickAt_mono s.timingWheel past
      have unscanned := fun scanned => stays ((due_iff h.toValid).mpr ⟨d, timed, past, scanned⟩)
      rcases h.ahead k d timed with ahead | ⟨single, here⟩
      · exact (unscanned ⟨_, ahead, le, le_rfl, Int.ModEq.refl _⟩).elim
      · rcases le.lt_or_eq with passed | same
        · refine (unscanned ⟨s.timingWheel.tickAt t, by omega, le_rfl, le, ?_⟩).elim
          rw [single]
          exact Int.modEq_one
        · exact Or.inr ⟨single, same.symm⟩

theorem cancelled_timely (h : Timely s t) {s' : MemoryStore ℚ} (valid : s'.Valid) {key : String}
    (wheel : s'.timingWheel = s.timingWheel.cancel key)
    (timed : s'.expiresAt = s.expiresAt.erase key) : Timely s' t := by
  obtain ⟨count, seconds, last, origin⟩ := cancel_fields s.timingWheel key
  have same : ∀ x, (s.timingWheel.cancel key).tickAt x = s.timingWheel.tickAt x := by
    intro x; simp only [tickAt, seconds, origin]
  refine ⟨valid, ?_, ?_, ?_⟩
  · rw [wheel, origin]; exact h.anchored
  · rw [wheel, last, same]; exact h.reached
  · intro k d found
    rw [timed, Dict.get?_erase] at found
    rw [wheel, last, same, count]
    split at found
    · cases found
    · exact h.ahead k d found

theorem Timely.put (h : Timely s t) (key value : String) : Timely (s.put key value) t :=
  cancelled_timely h (put_valid h.toValid key value) rfl rfl

theorem Timely.removeIfHeld (h : Timely s t) (key : String) : Timely (s.removeIfHeld key) t := by
  unfold MemoryStore.removeIfHeld
  split
  · exact cancelled_timely h (remove_valid h.toValid key) rfl rfl
  · exact h

/-- A deadline set in a later tick than the one just processed keeps `Timely`. -/
theorem Timely.withDeadline (h : Timely s t) {key : String} (held : s.data.contains key = true)
    {d o : ℚ} (known : s.timingWheel.originTimestamp = some o) (later : t < d)
    (ahead : s.timingWheel.bucketCount = 1 ∨ s.timingWheel.tickAt t < s.timingWheel.tickAt d) :
    Timely (s.withDeadline key d) t := by
  obtain ⟨_, seconds, count, last, origin, _⟩ := schedule_spec h.wheel key d
  have before := h.anchored o known
  have origin : (s.withDeadline key d).timingWheel.originTimestamp = some o := by
    rw [show (s.withDeadline key d).timingWheel = Id.run (s.timingWheel.schedule key d) from rfl,
      origin, originAfter, known, Option.getD_some, min_eq_left (by linarith)]
  have same : ∀ x, (s.withDeadline key d).timingWheel.tickAt x = s.timingWheel.tickAt x := by
    intro x
    simp only [tickAt, origin, known, Option.getD_some]
    rw [show (s.withDeadline key d).timingWheel.tickSeconds = s.timingWheel.tickSeconds from seconds]
  have last : (s.withDeadline key d).timingWheel.lastProcessedTick =
    s.timingWheel.lastProcessedTick := last
  have count : (s.withDeadline key d).timingWheel.bucketCount = s.timingWheel.bucketCount := count
  refine ⟨withDeadline_valid h.toValid held d, ?_, ?_, ?_⟩
  · intro o' known'
    rw [origin] at known'
    cases known'
    exact before
  · rw [last, same]; exact h.reached
  · intro k d' timed
    rw [last, same, count]
    rw [withDeadline_expiresAt] at timed
    split at timed
    · cases timed
      have reached := h.reached
      have le := tickAt_mono s.timingWheel later.le
      rcases ahead with single | ahead
      · rcases (le_trans reached le).lt_or_eq with less | here
        · exact Or.inl less
        · exact Or.inr ⟨single, here⟩
      · exact Or.inl (by omega)
    · exact h.ahead k d' timed

/-! ## One call -/

section Step

variable {c : StoreCall}

/-- With several buckets, a deadline that a pass leaves has not come. -/
theorem Timely.pending (h : Timely s t) (several : s.timingWheel.bucketCount ≠ 1) {k : String} {d : ℚ}
    (timed : s.expiresAt.get? k = some d) (stays : ¬ s.Due t k) : t < d := by
  by_contra past
  have past := not_lt.mp past
  rcases h.ahead k d timed with ahead | ⟨single, _⟩
  · exact stays ((due_iff h.toValid).mpr ⟨d, timed, past, _, ahead, tickAt_mono _ past, le_rfl,
      Int.ModEq.refl _⟩)
  · exact several single

theorem Timely.liveAt (h : Timely s t) (several : s.timingWheel.bucketCount ≠ 1) {k : String}
    (held : (s.pass t).data.contains k = true) : s.liveAt t k = true := by
  obtain ⟨v, found⟩ := Dict.contains_iff.mp held
  obtain ⟨found, stays⟩ := (pass_data h.toValid t k v).mp found
  rw [MemoryStore.liveAt, Bool.and_eq_true, Option.all_eq_true]
  refine ⟨Dict.contains_iff.mpr ⟨v, found⟩, fun d timed => ?_⟩
  exact decide_eq_true (h.pending several timed stays)

/-- The reading of a pass is one of `passReadings`. -/
theorem Timely.mem_passReadings (h : Timely s c.start) (several : s.timingWheel.bucketCount ≠ 1)
    {p : MemoryStore ℚ × ℚ} (made : p ∈ s.passes c) : p.2 ∈ s.passReadings c := by
  have first : c.start ∈ s.passReadings c := by
    unfold passReadings
    split <;> (try split) <;> simp
  rcases perform_effect s c with ⟨_, passes, _, _⟩ | ⟨_, _, _, passes, _, _⟩ | ⟨_, _, passes, _, _⟩ |
    ⟨key, n, op, negative, held, passes, _, _⟩ | ⟨_, _, _, _, _, passes, _, _⟩ |
    ⟨key, d, op, timed, late, passes, _, _⟩ | ⟨_, passes, _, _⟩ <;> rw [passes] at made
  case expired =>
    rcases List.mem_pair.mp made with rfl | rfl
    · exact first
    · simp [passReadings, op, h.liveAt several held, negative]
  case lapsed =>
    rcases List.mem_pair.mp made with rfl | rfl
    · exact first
    · obtain ⟨timed, stays⟩ := (pass_expiresAt h.toValid _ key d).mp timed
      simp [passReadings, op, timed, h.pending several timed stays, late]
  all_goals
    rw [List.mem_singleton.mp made]
    exact first

/-- `tickDuring` is the tick of the wheel once the call's first pass has set its origin. -/
theorem tickDuring_eq (h : s.Valid) (c : StoreCall) (d : ℚ) :
    s.tickDuring c d = (s.pass c.start).timingWheel.tickAt d := by
  obtain ⟨seconds, _, origin, _⟩ := pass_frame h c.start
  simp only [tickDuring, tickAt, seconds, origin, Option.getD_some]

theorem Punctual.pass (punctual : Punctual s c) (h : s.Valid) {r : ℚ} (reading : r ∈ s.passReadings c) :
    s.timingWheel.bucketCount = 1 ∨
      ∀ k d, s.expiresAt.get? k = some d → r < d → s.timingWheel.tickAt r < s.timingWheel.tickAt d := by
  refine punctual.imp id fun ⟨passes, _⟩ k d timed before => ?_
  obtain ⟨o, known, _⟩ := h.origin timed
  have listed : d ∈ s.expiresAt.values := List.mem_map.mpr ⟨(k, d), Dict.mem_entries.mpr timed, rfl⟩
  have strict := passes r reading d listed before
  rwa [tickDuring_eq h, tickDuring_eq h, pass_tickAt h _ _ known, pass_tickAt h _ _ known] at strict

variable (now : ∀ r ∈ s.taken c, Timely s r) (sorted : (s.taken c).Pairwise (· ≤ ·))
  (punctual : Punctual s c)

include now sorted punctual

/-- The store is timely before and after each pass of a punctual call. -/
theorem passes_timely {p : MemoryStore ℚ × ℚ} (made : p ∈ s.passes c) :
    Timely p.1 p.2 ∧ Timely (p.1.pass p.2) p.2 := by
  have pass_at (start : c.start ∈ s.taken c) {p : MemoryStore ℚ × ℚ} (made : p ∈ s.passes c) :
      s.timingWheel.bucketCount = 1 ∨ ∀ k d, s.expiresAt.get? k = some d → p.2 < d →
        s.timingWheel.tickAt p.2 < s.timingWheel.tickAt d := by
    by_cases single : s.timingWheel.bucketCount = 1
    · exact Or.inl single
    · exact punctual.pass (now _ start).toValid ((now _ start).mem_passReadings single made)
  have first (start : c.start ∈ s.taken c) : Timely s c.start ∧ Timely (s.pass c.start) c.start :=
    ⟨now _ start, (now _ start).pass (pass_at start (first_pass s c))⟩
  -- A second pass sees the deadlines that the first one left.
  have second (start : c.start ∈ s.taken c) {r : ℚ} (le : c.start ≤ r)
      (made : (s.pass c.start, r) ∈ s.passes c) :
      Timely (s.pass c.start) r ∧ Timely ((s.pass c.start).pass r) r := by
    have h := (first start).1.toValid
    have timely := (first start).2.mono le
    refine ⟨timely, timely.pass ?_⟩
    rw [(pass_frame h c.start).2.1]
    refine (pass_at start made).imp id fun strict k d timed before => ?_
    obtain ⟨timed, _⟩ := (pass_expiresAt h _ k d).mp timed
    obtain ⟨o, known, _⟩ := h.origin timed
    rw [pass_tickAt h _ _ known, pass_tickAt h _ _ known]
    exact strict k d timed before
  have both := made
  rcases perform_effect s c with ⟨_, passes, start, _⟩ | ⟨_, _, _, passes, start, _⟩ |
    ⟨_, _, passes, start, _⟩ | ⟨_, _, _, _, _, passes, taken, _⟩ | ⟨_, _, _, _, _, passes, taken, _⟩ |
    ⟨_, _, _, _, _, passes, taken, _⟩ | ⟨_, passes, start, _⟩ <;> rw [passes] at made
  case expired =>
    rw [taken] at sorted
    have le : c.start ≤ c.clock 1 := by simpa using sorted
    rcases List.mem_pair.mp made with rfl | rfl
    · exact first (by simp [taken])
    · exact second (by simp [taken]) le both
  case lapsed =>
    rw [taken] at sorted
    have le : c.start ≤ c.clock 2 := by
      simp only [List.pairwise_cons, List.mem_cons, forall_eq_or_imp] at sorted
      exact sorted.1.2.1
    rcases List.mem_pair.mp made with rfl | rfl
    · exact first (by simp [taken])
    · exact second (by simp [taken]) le both
  case timed =>
    rw [List.mem_singleton.mp made]
    exact first (by simp [taken])
  all_goals
    rw [List.mem_singleton.mp made]
    exact first start

/-- **One call.** A punctual call at non-decreasing readings keeps the store timely. -/
theorem step_timely (later : ∀ r ∈ s.taken c, r ≤ t) (kept : c.op ≠ .flush) :
    Timely (s.perform c).2 t := by
  have timely {p : MemoryStore ℚ × ℚ} (made : p ∈ s.passes c) : Timely (p.1.pass p.2) p.2 :=
    (passes_timely now sorted punctual made).2
  have first : Timely (s.pass c.start) c.start := timely (p := (s, c.start)) (first_pass s c)
  rcases perform_effect s c with ⟨_, _, start, left⟩ | ⟨key, value, _, _, start, left⟩ |
    ⟨key, _, _, start, left⟩ | ⟨key, n, _, _, _, passes, taken, left⟩ |
    ⟨key, n, op, positive, held, _, taken, left⟩ | ⟨key, d, _, _, _, passes, taken, left⟩ |
    ⟨op, _, _, _⟩
  · rw [left]; exact first.mono (later _ start)
  · rw [left]; exact (first.put key value).mono (later _ start)
  · rw [left]; exact (first.removeIfHeld key).mono (later _ start)
  · have second : Timely ((s.pass c.start).pass (c.clock 1)) (c.clock 1) :=
      timely (p := (s.pass c.start, c.clock 1)) (by simp [passes])
    rw [left]; exact (second.removeIfHeld key).mono (later _ (by simp [taken]))
  · have h := (now c.start (by simp [taken])).toValid
    rw [taken] at sorted
    have le : c.start ≤ c.clock 1 := by simpa using sorted
    have positive' : (0 : ℚ) < n := by exact_mod_cast positive
    have ahead : (s.pass c.start).timingWheel.bucketCount = 1 ∨
        (s.pass c.start).timingWheel.tickAt c.start <
          (s.pass c.start).timingWheel.tickAt (c.clock 1 + n) := by
      rw [(pass_frame h c.start).2.1]
      by_cases single : s.timingWheel.bucketCount = 1
      · exact Or.inl single
      · refine punctual.imp id fun ⟨_, strict⟩ => ?_
        rw [← tickDuring_eq h, ← tickDuring_eq h]
        have live := (now c.start (by simp [taken])).liveAt single held
        exact strict _ (by simp [newDeadline?, op, live, positive])
    rw [left]
    exact (first.withDeadline held (pass_frame h c.start).2.2.1 (by linarith) ahead).mono
      (later _ (by simp [taken]))
  · have second : Timely ((s.pass c.start).pass (c.clock 2)) (c.clock 2) :=
      timely (p := (s.pass c.start, c.clock 2)) (by simp [passes])
    rw [left]; exact (second.removeIfHeld key).mono (later _ (by simp [taken]))
  · exact (kept op).elim

/-- A punctual call leaves no key whose deadline is one tick old. -/
theorem step_expired : ExpiredInTime s c := by
  intro p made k d timed old
  obtain ⟨timely, _⟩ := passes_timely now sorted punctual made
  have gone := timely.expired timed old
  refine ⟨gone, fun unset later laterUnset clock => ?_⟩
  have valid : s.Valid := (passes_timely now sorted punctual (first_pass s c)).1.toValid
  have absent : (s.perform c).2.data.get? k = none := by
    refine Option.eq_none_iff_forall_ne_some.mpr fun v found => ?_
    have left := passes_data_sub valid unset made found
    rw [gone] at left
    cases left
  have absent := absent_until_set (perform_valid valid c) absent laterUnset
  have valid := run_valid (perform_valid valid c) later
  simp only [get_exact]
  refine Option.eq_none_iff_forall_ne_some.mpr fun v found => ?_
  have held := pass_data_sub valid found
  rw [absent] at held
  cases held

end Step

/-! ## Every run -/

theorem run_expired {s : MemoryStore ℚ} {calls : List StoreCall}
    (now : ∀ r ∈ machine.collect taken s calls, Timely s r)
    (sorted : (machine.collect taken s calls).Pairwise (· ≤ ·))
    (kept : ∀ c ∈ calls, c.op ≠ .flush) (punctual : machine.Along Punctual s calls) :
    machine.Along ExpiredInTime s calls := by
  induction calls generalizing s with
  | nil => trivial
  | cons c calls ih =>
    obtain ⟨here, rest⟩ := punctual
    obtain ⟨sortedHere, sortedRest, order⟩ := List.pairwise_append.mp sorted
    have nowHere : ∀ r ∈ s.taken c, Timely s r := fun r member =>
      now r (List.mem_append_left _ member)
    refine ⟨step_expired nowHere sortedHere here, ih (fun r member => ?_) sortedRest
      (fun c' member => kept c' (List.mem_cons_of_mem c member)) rest⟩
    exact step_timely nowHere sortedHere here (fun r' member' => order r' member' r member)
      (kept c List.mem_cons_self)

/-- **Expiry within one tick.** On any wheel, in a run of punctual calls without a flush whose
readings never decrease, no pass leaves a key whose deadline is one tick old. -/
theorem expired_within_tick (tick : ℚ) (count : Nat) (tick_pos : 0 < tick) (count_pos : 0 < count)
    (calls : List StoreCall) (kept : ∀ c ∈ calls, c.op ≠ .flush)
    (sorted : (machine.collect taken (start tick count tick_pos count_pos) calls).Pairwise (· ≤ ·))
    (punctual : machine.Along Punctual (start tick count tick_pos count_pos) calls) :
    machine.Along ExpiredInTime (start tick count tick_pos count_pos) calls :=
  run_expired (fun r _ => start_timely tick count tick_pos count_pos r) sorted kept punctual

/-- A key polled before the tick of its deadline and after the deadline. -/
def polledRun : List StoreCall :=
  [⟨.set "k" "v", Clock.still 0⟩, ⟨.expire "k" 10, Clock.still 0⟩, ⟨.get "k", Clock.still 5⟩,
   ⟨.ttl "k", Clock.still 9⟩, ⟨.get "k", Clock.still 12⟩]

theorem polled_run_expired :
    (0 < (1 : ℚ) ∧ 0 < 2 ∧ (∀ c ∈ polledRun, c.op ≠ .flush) ∧
      (machine.collect taken (start 1 2 (by decide +kernel) (by decide)) polledRun).Pairwise (· ≤ ·) ∧
      machine.Along Punctual (start 1 2 (by decide +kernel) (by decide)) polledRun) ∧
    machine.Along ExpiredInTime (start 1 2 (by decide +kernel) (by decide)) polledRun :=
  ⟨⟨by decide +kernel, by decide, by decide +kernel, by decide +kernel, by decide +kernel⟩,
    expired_within_tick 1 2 (by decide +kernel) (by decide) polledRun (by decide +kernel)
      (by decide +kernel) (by decide +kernel)⟩

/-- A key with the deadline `21/20`, polled at `102/100` in the deadline's tick and then one tick
after the deadline. -/
def requeuedRun : List StoreCall :=
  [⟨.set "k" "v", Clock.still 0⟩, ⟨.expire "k" 1, fun i => if i = 0 then 0 else 1 / 20⟩,
   ⟨.get "k", Clock.still (102 / 100)⟩, ⟨.processExpirations none, Clock.still (115 / 100)⟩]

/-- On the default wheel the second poll still holds the key. -/
theorem requeued_run_late :
    ¬ ∀ (tick : ℚ) (count : Nat) (tick_pos : 0 < tick) (count_pos : 0 < count)
      (calls : List StoreCall), (∀ c ∈ calls, c.op ≠ .flush) →
      (machine.collect taken (start tick count tick_pos count_pos) calls).Pairwise (· ≤ ·) →
      machine.Along ExpiredInTime (start tick count tick_pos count_pos) calls := by
  intro claim
  have all := claim (1 / 10) 512 (by decide +kernel) (by decide) requeuedRun (by decide +kernel)
    (by decide +kernel)
  obtain ⟨_, _, _, last, _⟩ := all
  have gone := (last _ (first_pass _ _) "k" (21 / 20) (by decide +kernel) (by decide +kernel)).1
  revert gone
  decide +kernel

end LiteStore.MemoryStore
