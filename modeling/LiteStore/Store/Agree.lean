import LiteStore.Store.Expiry

/-!
# GET and TTL

`get` answers what the wheel has left, `ttl` goes by the deadline. They agree on a key unless its
deadline is over and the pass does not come to the deadline's tick (`Caught`): then `get` still reads
the value, and `ttl` answers `0`, or from one second on `-2`, and deletes the key. In a run of
punctual calls every deadline is caught.
-/

namespace LiteStore.MemoryStore
set_option autoImplicit false
open Py TimingWheel

/-- What `ttl` and `get` of a key say of each other while the clock stands at `t`. -/
structure Agree (s : MemoryStore ℚ) (t : ℚ) (key : String) : Prop where
  gone : (Id.run (s.ttl (Clock.still t) key)).1 = -2 ↔ (Id.run (s.get (Clock.still t) key)).1 = none
  untimed : (Id.run (s.ttl (Clock.still t) key)).1 = -1 ↔
    s.data.contains key = true ∧ s.expiresAt.get? key = none
  whole : ∀ n, (Id.run (s.ttl (Clock.still t) key)).1 = n → n ≠ -2 → n ≠ -1 →
    ∃ d, s.expiresAt.get? key = some d ∧ 0 ≤ n ∧ n ≤ d - t ∧ d - t < n + 1
  kept : (Id.run ((Id.run (s.ttl (Clock.still t) key)).2.get (Clock.still t) key)).1 =
    (Id.run (s.get (Clock.still t) key)).1

/-- If the key's deadline is over at `t`, a pass at `t` comes to its tick. -/
def Caught (s : MemoryStore ℚ) (t : ℚ) (key : String) : Prop :=
  ∀ d, s.expiresAt.get? key = some d → d < t →
    Scanned s.timingWheel.bucketCount s.timingWheel.lastProcessedTick
      (s.timingWheel.tickAt t) (s.timingWheel.tickAt d)

/-! ## The two answers -/

section Answers

variable {s : MemoryStore ℚ} {t : ℚ} {key v : String}

/-- A second pass at the same time finds nothing due. -/
theorem pass_not_due (h : s.Valid) : ¬ (s.pass t).Due t key := by
  intro due
  obtain ⟨d, timed, _, r, after, upto, _⟩ := (due_iff (pass_valid h t)).mp due
  rw [(pass_frame h t).2.2.2] at after
  rw [pass_tickAt_self h] at upto
  have := le_max_right s.timingWheel.lastProcessedTick (s.timingWheel.tickAt t)
  omega

/-- A second pass at the same time changes no value. -/
theorem pass_pass_data (h : s.Valid) : ((s.pass t).pass t).data.get? key = (s.pass t).data.get? key := by
  refine Option.ext fun v => ?_
  rw [pass_data (pass_valid h t)]
  exact and_iff_left (pass_not_due h)

theorem get_still (s : MemoryStore ℚ) (t : ℚ) (key : String) :
    (Id.run (s.get (Clock.still t) key)).1 = (s.pass t).data.get? key := rfl

/-- `ttl` of a key that the pass removes, or that is not there. -/
theorem ttl_absent (absent : (s.pass t).data.get? key = none) :
    Id.run (s.ttl (Clock.still t) key) = (-2, s.pass t) := by
  have gone : ¬ (s.pass t).data.contains key = true := by simp [Dict.contains, absent]
  rw [ttl_exact]
  exact if_neg gone

theorem ttl_held (held : (s.pass t).data.get? key = some v) :
    Id.run (s.ttl (Clock.still t) key) =
      match (s.pass t).expiresAt.get? key with
      | none => (-1, s.pass t)
      | some d =>
        if truncate (d - t) < 0 then (-2, ((s.pass t).pass t).removeIfHeld key)
        else (truncate (d - t), s.pass t) := by
  rw [ttl_exact]
  exact if_pos (Dict.contains_iff.mpr ⟨v, held⟩)

/-- A key that the pass leaves keeps its deadline. -/
theorem pass_timed (h : s.Valid) (held : (s.pass t).data.get? key = some v) :
    (s.pass t).expiresAt.get? key = s.expiresAt.get? key := by
  obtain ⟨_, stays⟩ := (pass_data h t key v).mp held
  refine Option.ext fun d => ?_
  rw [pass_expiresAt h]
  exact and_iff_left stays

/-- **A key that is not held** after the pass. -/
theorem agree_absent (h : s.Valid) (absent : (s.pass t).data.get? key = none) :
    s.Agree t key ∧ s.Caught t key := by
  have removed {v : String} (found : s.data.get? key = some v) : s.Due t key := by
    by_contra stays
    rw [(pass_data h t key v).mpr ⟨found, stays⟩] at absent
    cases absent
  constructor
  · constructor
    · simp [ttl_absent absent, get_still, absent]
    · rw [ttl_absent absent]
      refine iff_of_false (by norm_num) ?_
      rintro ⟨held, untimed⟩
      obtain ⟨v, found⟩ := Dict.contains_iff.mp held
      obtain ⟨d, timed, _⟩ := (removed found).deadline h
      rw [untimed] at timed
      cases timed
    · rw [ttl_absent absent]
      rintro n rfl other
      exact absurd rfl other
    · rw [ttl_absent absent, get_still, get_still, pass_pass_data h]
  · intro d timed past
    obtain ⟨v, found⟩ := h.held key d timed
    obtain ⟨d', timed', _, scanned⟩ := (due_iff h).mp (removed found)
    rw [timed] at timed'
    cases timed'
    exact scanned

/-- **A key without a deadline.** -/
theorem agree_untimed (h : s.Valid) (held : (s.pass t).data.get? key = some v)
    (untimed : s.expiresAt.get? key = none) : s.Agree t key ∧ s.Caught t key := by
  have asked : Id.run (s.ttl (Clock.still t) key) = (-1, s.pass t) := by
    rw [ttl_held held, pass_timed h held, untimed]
  constructor
  · constructor
    · simp [asked, get_still, held]
    · have there := ((pass_data h t key v).mp held).1
      simp [asked, untimed, Dict.contains, there]
    · rw [asked]
      rintro n rfl _ other
      exact absurd rfl other
    · rw [asked, get_still, get_still, pass_pass_data h]
  · intro d timed
    rw [untimed] at timed
    cases timed

/-- **A key whose deadline has not come** or comes at `t`. -/
theorem agree_pending {d : ℚ} (h : s.Valid) (held : (s.pass t).data.get? key = some v)
    (timed : s.expiresAt.get? key = some d) (pending : t ≤ d) : s.Agree t key ∧ s.Caught t key := by
  have left : 0 ≤ d - t := by linarith
  have whole : truncate (d - t) = ⌊d - t⌋ := if_pos left
  have counted : 0 ≤ ⌊d - t⌋ := Int.floor_nonneg.mpr left
  have asked : Id.run (s.ttl (Clock.still t) key) = (⌊d - t⌋, s.pass t) := by
    rw [ttl_held held, pass_timed h held, timed]
    simp only [whole]
    exact if_neg (not_lt.mpr counted)
  constructor
  · constructor
    · rw [asked, get_still, held]
      exact iff_of_false (by dsimp only; omega) (by simp)
    · rw [asked, timed]
      exact iff_of_false (by dsimp only; omega) (by simp)
    · rw [asked]
      rintro n rfl _ _
      exact ⟨d, timed, counted, Int.floor_le _, Int.lt_floor_add_one _⟩
    · rw [asked, get_still, get_still, pass_pass_data h]
  · intro d' timed' past
    rw [timed] at timed'
    cases timed'
    exact absurd past (not_lt.mpr pending)

/-- **A key that is left behind**: within a second of its deadline `ttl` says `0`, then `-2`. -/
theorem agree_late {d : ℚ} (h : s.Valid) (held : (s.pass t).data.get? key = some v)
    (timed : s.expiresAt.get? key = some d) (past : d < t) : ¬ s.Agree t key ∧ ¬ s.Caught t key := by
  obtain ⟨_, stays⟩ := (pass_data h t key v).mp held
  refine ⟨fun agree => ?_, fun caught => stays ((due_iff h).mpr ⟨d, timed, past.le, caught d timed past⟩)⟩
  have asked := ttl_held (t := t) held
  rw [pass_timed h held, timed] at asked
  by_cases late : truncate (d - t) < 0
  · have gone := agree.gone
    rw [asked, get_still, held] at gone
    simp [late] at gone
  · have answer : (Id.run (s.ttl (Clock.still t) key)).1 = truncate (d - t) := by
      rw [asked]
      simp only [if_neg late]
    obtain ⟨d', timed', counted, below, -⟩ := agree.whole _ answer (by omega) (by omega)
    rw [timed] at timed'
    cases timed'
    have : (0 : ℚ) ≤ truncate (d - t) := by exact_mod_cast counted
    linarith

/-- The two calls agree on a key exactly when it is caught. -/
theorem agree_iff (h : s.Valid) (t : ℚ) (key : String) : s.Agree t key ↔ s.Caught t key := by
  cases held : (s.pass t).data.get? key with
  | none => exact iff_of_true (agree_absent h held).1 (agree_absent h held).2
  | some v =>
    cases timed : s.expiresAt.get? key with
    | none => exact iff_of_true (agree_untimed h held timed).1 (agree_untimed h held timed).2
    | some d =>
      rcases le_or_gt t d with pending | past
      · exact iff_of_true (agree_pending h held timed pending).1 (agree_pending h held timed pending).2
      · exact iff_of_false (agree_late h held timed past).1 (agree_late h held timed past).2

end Answers

/-! ## Every run -/

/-- With several buckets every deadline of a timely store is caught: it lies ahead of the last
processed tick. -/
theorem Timely.caught {s : MemoryStore ℚ} {t : ℚ} (h : Timely s t)
    (several : s.timingWheel.bucketCount ≠ 1) (key : String) : s.Caught t key := by
  intro d timed past
  rcases h.ahead key d timed with ahead | ⟨single, _⟩
  · exact ⟨_, ahead, tickAt_mono _ past.le, le_rfl, Int.ModEq.refl _⟩
  · exact absurd single several

theorem removeIfHeld_bucketCount (s : MemoryStore ℚ) (key : String) :
    (s.removeIfHeld key).timingWheel.bucketCount = s.timingWheel.bucketCount := by
  unfold removeIfHeld
  split
  · exact (cancel_fields s.timingWheel key).1
  · rfl

/-- A call leaves the number of buckets, or makes it the default one. -/
theorem perform_bucketCount {s : MemoryStore ℚ} (h : s.Valid) (c : StoreCall) :
    (s.perform c).2.timingWheel.bucketCount = s.timingWheel.bucketCount ∨
      (s.perform c).2.timingWheel.bucketCount = 512 := by
  have passed {s : MemoryStore ℚ} (h : s.Valid) (t : ℚ) := (pass_frame h t).2.1
  have valid := pass_valid h c.start
  rcases perform_effect s c with ⟨_, _, _, left⟩ | ⟨key, value, _, _, _, left⟩ | ⟨key, _, _, _, left⟩ |
    ⟨key, n, _, _, _, _, _, left⟩ | ⟨key, n, _, _, held, _, _, left⟩ |
    ⟨key, d, _, _, _, _, _, left⟩ | ⟨_, _, _, left⟩ <;> rw [left]
  · exact .inl (passed h _)
  · exact .inl ((cancel_fields (s.pass c.start).timingWheel key).1.trans (passed h _))
  · exact .inl ((removeIfHeld_bucketCount _ key).trans (passed h _))
  · exact .inl ((removeIfHeld_bucketCount _ key).trans ((passed valid _).trans (passed h _)))
  · obtain ⟨_, _, count, _⟩ := schedule_spec valid.wheel key (c.clock 1 + n)
    exact .inl (count.trans (passed h _))
  · exact .inl ((removeIfHeld_bucketCount _ key).trans ((passed valid _).trans (passed h _)))
  · exact .inr rfl

theorem run_several {s : MemoryStore ℚ} (h : s.Valid) (several : s.timingWheel.bucketCount ≠ 1)
    (calls : List StoreCall) : (machine.after s calls).timingWheel.bucketCount ≠ 1 := by
  refine (machine.invariant (I := fun s => s.Valid ∧ s.timingWheel.bucketCount ≠ 1) ⟨h, several⟩ ?_
    calls).2
  rintro s c ⟨valid, several⟩
  refine ⟨perform_valid valid c, ?_⟩
  rcases perform_bucketCount valid c with same | default
  · exact same ▸ several
  · rw [machine_step, default]
    decide

/-- A punctual call at non-decreasing readings keeps the store timely; a flush makes it so. -/
theorem call_timely {s : MemoryStore ℚ} {t : ℚ} {c : StoreCall} (now : ∀ r ∈ s.taken c, Timely s r)
    (sorted : (s.taken c).Pairwise (· ≤ ·)) (punctual : Punctual s c)
    (later : ∀ r ∈ s.taken c, r ≤ t) : Timely (s.perform c).2 t := by
  by_cases flush : c.op = .flush
  · obtain ⟨op, clock⟩ := c
    cases flush
    exact start_timely (1 / 10) 512 Timestamp.tenth_pos (by decide) t
  · exact step_timely now sorted punctual later flush

theorem run_timely {s : MemoryStore ℚ} {calls : List StoreCall} {t : ℚ}
    (now : ∀ r ∈ machine.collect taken s calls ++ [t], Timely s r)
    (sorted : (machine.collect taken s calls ++ [t]).Pairwise (· ≤ ·))
    (punctual : machine.Along Punctual s calls) : Timely (machine.after s calls) t := by
  induction calls generalizing s with
  | nil => exact now t List.mem_cons_self
  | cons c calls ih =>
    obtain ⟨here, rest⟩ := punctual
    rw [Machine.collect, List.append_assoc] at now sorted
    obtain ⟨sortedHere, sortedRest, order⟩ := List.pairwise_append.mp sorted
    refine ih (fun r member => ?_) sortedRest rest
    exact call_timely (fun r member => now r (List.mem_append_left _ member)) sortedHere here
      fun r' member' => order r' member' r member

/-- **GET and TTL agree** in a state reached exactly on the keys whose deadline, if it is over, is
caught. On a wheel of several buckets that is every key, in every run of punctual calls whose readings
never decrease. -/
theorem get_ttl_agree_iff (tick : ℚ) (count : Nat) (tick_pos : 0 < tick) (count_pos : 0 < count)
    (steps : List StoreStep) :
    let s := steps.foldl advance (start tick count tick_pos count_pos)
    let calls := steps.flatMap StoreStep.calls
    (∀ t key, s.Agree t key ↔ s.Caught t key) ∧
      (count ≠ 1 → machine.Along Punctual (start tick count tick_pos count_pos) calls →
        ∀ t, (machine.collect taken (start tick count tick_pos count_pos) calls ++ [t]).Pairwise (· ≤ ·) →
          ∀ key, s.Agree t key) := by
  intro s calls
  have reached : s = machine.after (start tick count tick_pos count_pos) calls := run_eq_after _ steps
  have h := start_valid tick count tick_pos count_pos
  have valid : s.Valid := reached ▸ run_valid h calls
  refine ⟨agree_iff valid, fun several punctual t sorted key => (agree_iff valid t key).mpr ?_⟩
  have timely := run_timely (fun r _ => start_timely tick count tick_pos count_pos r) sorted punctual
  have buckets := run_several h several calls
  rw [← reached] at timely buckets
  exact timely.caught buckets key

/-- A key with the deadline `21/20`, polled at `102/100` in the deadline's tick. -/
def polledEarly : List StoreStep :=
  [.call ⟨.set "k" "v", Clock.still 0⟩, .call ⟨.expire "k" 1, fun i => if i = 0 then 0 else 1 / 20⟩,
   .call ⟨.get "k", Clock.still (102 / 100)⟩]

theorem polled_early_agree_iff :
    (0 < (1 / 10 : ℚ) ∧ 0 < 512) ∧
    let s := polledEarly.foldl advance (start (1 / 10) 512 Timestamp.tenth_pos (by decide))
    let calls := polledEarly.flatMap StoreStep.calls
    (∀ t key, s.Agree t key ↔ s.Caught t key) ∧
      (512 ≠ 1 → machine.Along Punctual (start (1 / 10) 512 Timestamp.tenth_pos (by decide)) calls →
        ∀ t, (machine.collect taken (start (1 / 10) 512 Timestamp.tenth_pos (by decide)) calls ++
          [t]).Pairwise (· ≤ ·) → ∀ key, s.Agree t key) :=
  ⟨⟨Timestamp.tenth_pos, by decide⟩,
    get_ttl_agree_iff (1 / 10) 512 Timestamp.tenth_pos (by decide) polledEarly⟩

/-- On the default wheel `get` reads it at `3`, and `ttl` says that it is not there. -/
theorem polled_early_differs :
    ¬ ∀ (tick : ℚ) (count : Nat) (tick_pos : 0 < tick) (count_pos : 0 < count)
      (steps : List StoreStep) (t : ℚ),
      (machine.collect taken (start tick count tick_pos count_pos)
        (steps.flatMap StoreStep.calls) ++ [t]).Pairwise (· ≤ ·) →
      ∀ key, (steps.foldl advance (start tick count tick_pos count_pos)).Agree t key := by
  intro claim
  have agree := claim (1 / 10) 512 (by decide +kernel) (by decide) polledEarly 3 (by decide +kernel) "k"
  exact absurd (agree.gone.mp (by decide +kernel)) (by decide +kernel)

end LiteStore.MemoryStore
