import LiteStore.Lib.ExpiringMap
import LiteStore.Store.Expiry

/-!
# One turn of the wheel

A key that a pass meets before its deadline waits in its bucket until the wheel comes round to it. So at
readings that never decrease, the last processed tick is never a whole turn ahead of a pending deadline
(`InTurn`), whatever the calls are, and a pass leaves no key whose deadline is a turn old. For every pass
the store is a map whose expiry has a turn's slack (`InTurn.pass_expires`).
-/

namespace LiteStore.MemoryStore
set_option autoImplicit false
open Py TimingWheel

/-- The time the wheel takes to come round. -/
def revolution (s : MemoryStore ℚ) : ℚ := s.timingWheel.bucketCount * s.timingWheel.tickSeconds

/-- A bucket that the wheel left less than a turn ago is scanned within the turn. -/
theorem scanned_of_turn {count : Nat} {last current scheduled : Int} (recent : last < scheduled + count)
    (turn : scheduled + count ≤ current) : Scanned count last current scheduled := by
  by_cases ahead : last < scheduled
  · exact ⟨scheduled, ahead, by omega, le_rfl, Int.ModEq.refl _⟩
  · refine ⟨scheduled + count, recent, turn, by omega, ?_⟩
    exact (Int.modEq_iff_dvd).mpr ⟨1, by ring⟩

/-- No reading so far is after `t`, and the last processed tick is less than a turn ahead of every pending
deadline. -/
structure InTurn (s : MemoryStore ℚ) (t : ℚ) : Prop extends Valid s where
  anchored : ∀ o, s.timingWheel.originTimestamp = some o → o ≤ t
  reached : s.timingWheel.lastProcessedTick ≤ s.timingWheel.tickAt t
  recent : ∀ k d, s.expiresAt.get? k = some d →
    s.timingWheel.lastProcessedTick < s.timingWheel.tickAt d + s.timingWheel.bucketCount

variable {s : MemoryStore ℚ} {t t' : ℚ}

theorem InTurn.mono (h : InTurn s t) (le : t ≤ t') : InTurn s t' where
  toValid := h.toValid
  anchored o known := le_trans (h.anchored o known) le
  reached := le_trans h.reached (tickAt_mono _ le)
  recent := h.recent

theorem fresh_inTurn (tick : ℚ) (count : Nat) (tick_pos : 0 < tick) (count_pos : 0 < count) (t : ℚ) :
    InTurn (fresh (TimingWheel.fresh tick count tick_pos count_pos)) t where
  toValid := fresh_valid (TimingWheel.fresh_valid tick count tick_pos count_pos) rfl
  anchored _ known := by cases known
  reached := by
    rw [tickAt_unanchored rfl]
    show (-1 : Int) ≤ 0
    omega
  recent _ _ timed := by cases timed

/-- A pass that is a turn late finds the key. -/
theorem InTurn.due (h : InTurn s t) {k : String} {d : ℚ} (timed : s.expiresAt.get? k = some d)
    (turn : s.timingWheel.tickAt d + s.timingWheel.bucketCount ≤ s.timingWheel.tickAt t) : s.Due t k := by
  rw [due_iff h.toValid]
  refine ⟨d, timed, ?_, scanned_of_turn (h.recent k d timed) turn⟩
  by_contra before
  have order := tickAt_mono s.timingWheel (not_le.mp before).le
  have several := s.timingWheel.count_pos
  omega

/-- A pass at a reading keeps `InTurn`. -/
theorem InTurn.pass (h : InTurn s t) : InTurn (s.pass t) t := by
  obtain ⟨_, count, origin, last⟩ := pass_frame h.toValid t
  have last : (s.pass t).timingWheel.lastProcessedTick = s.timingWheel.tickAt t := by
    rw [last, max_eq_right h.reached]
  refine ⟨pass_valid h.toValid t, ?_, ?_, ?_⟩
  · intro o known
    rw [origin] at known
    cases known
    cases seen : s.timingWheel.originTimestamp with
    | none => exact le_rfl
    | some o => exact h.anchored o seen
  · rw [last, pass_tickAt_self h.toValid]
  · intro k d timed
    obtain ⟨timed, stays⟩ := (pass_expiresAt h.toValid t k d).mp timed
    obtain ⟨o, known, _⟩ := h.origin timed
    rw [last, count, pass_tickAt h.toValid t d known]
    by_contra late
    exact stays (h.due timed (by omega))

theorem cancelled_inTurn (h : InTurn s t) {s' : MemoryStore ℚ} (valid : s'.Valid) {key : String}
    (wheel : s'.timingWheel = s.timingWheel.cancel key)
    (timed : s'.expiresAt = s.expiresAt.erase key) : InTurn s' t := by
  obtain ⟨count, seconds, last, origin⟩ := cancel_fields s.timingWheel key
  have same : ∀ x, (s.timingWheel.cancel key).tickAt x = s.timingWheel.tickAt x := by
    intro x
    simp only [tickAt, seconds, origin]
  refine ⟨valid, ?_, ?_, ?_⟩
  · rw [wheel, origin]
    exact h.anchored
  · rw [wheel, last, same]
    exact h.reached
  · intro k d found
    rw [timed, Dict.get?_erase] at found
    rw [wheel, last, same, count]
    split at found
    · cases found
    · exact h.recent k d found

theorem InTurn.put (h : InTurn s t) (key value : String) : InTurn (s.put key value) t :=
  cancelled_inTurn h (put_valid h.toValid key value) rfl rfl

theorem InTurn.removeIfHeld (h : InTurn s t) (key : String) : InTurn (s.removeIfHeld key) t := by
  unfold MemoryStore.removeIfHeld
  split
  · exact cancelled_inTurn h (remove_valid h.toValid key) rfl rfl
  · exact h

/-- A deadline that has not come keeps `InTurn`, once the wheel has an origin. -/
theorem InTurn.withDeadline (h : InTurn s t) {key : String} (held : s.data.contains key = true)
    {d o : ℚ} (known : s.timingWheel.originTimestamp = some o) (later : t ≤ d) :
    InTurn (s.withDeadline key d) t := by
  obtain ⟨_, seconds, count, last, origin, _⟩ := schedule_spec h.wheel key d
  have before := h.anchored o known
  have origin : (s.withDeadline key d).timingWheel.originTimestamp = some o := by
    rw [show (s.withDeadline key d).timingWheel = Id.run (s.timingWheel.schedule key d) from rfl,
      origin, originAfter, known, Option.getD_some, min_eq_left (by linarith)]
  have seconds : (s.withDeadline key d).timingWheel.tickSeconds = s.timingWheel.tickSeconds := seconds
  have last : (s.withDeadline key d).timingWheel.lastProcessedTick = s.timingWheel.lastProcessedTick := last
  have count : (s.withDeadline key d).timingWheel.bucketCount = s.timingWheel.bucketCount := count
  have same : ∀ x, (s.withDeadline key d).timingWheel.tickAt x = s.timingWheel.tickAt x := by
    intro x
    simp only [tickAt, origin, known, Option.getD_some, seconds]
  refine ⟨withDeadline_valid h.toValid held d, ?_, ?_, ?_⟩
  · intro o' known'
    rw [origin] at known'
    cases known'
    exact before
  · rw [last, same]
    exact h.reached
  · intro k d' timed
    rw [last, same, count]
    rw [withDeadline_expiresAt] at timed
    split at timed
    · cases timed
      have reached := h.reached
      have order := tickAt_mono s.timingWheel later
      have several := s.timingWheel.count_pos
      omega
    · exact h.recent k d' timed

/-- **One call** at non-decreasing readings, whatever it is. -/
theorem InTurn.step {c : StoreCall} (now : ∀ r ∈ s.taken c, InTurn s r) (sorted : (s.taken c).Pairwise (· ≤ ·))
    (later : ∀ r ∈ s.taken c, r ≤ t) : InTurn (s.perform c).2 t := by
  have first (start : c.start ∈ s.taken c) : InTurn (s.pass c.start) c.start := (now _ start).pass
  rcases perform_effect s c with ⟨_, _, start, left⟩ | ⟨key, value, _, _, start, left⟩ |
    ⟨key, _, _, start, left⟩ | ⟨key, n, _, _, _, _, taken, left⟩ |
    ⟨key, n, _, positive, held, _, taken, left⟩ | ⟨key, d, _, _, _, _, taken, left⟩ |
    ⟨_, _, _, left⟩ <;> rw [left]
  · exact (first start).mono (later _ start)
  · exact ((first start).put key value).mono (later _ start)
  · exact ((first start).removeIfHeld key).mono (later _ start)
  · rw [taken] at sorted
    have le : c.start ≤ c.clock 1 := by simpa using sorted
    have second := ((first (by simp [taken])).mono le).pass
    exact (second.removeIfHeld key).mono (later _ (by simp [taken]))
  · have start : c.start ∈ s.taken c := by simp [taken]
    rw [taken] at sorted
    have le : c.start ≤ c.clock 1 := by simpa using sorted
    have ahead : (0 : ℚ) ≤ n := by exact_mod_cast positive.le
    have origin := (pass_frame (now _ start).toValid c.start).2.2.1
    exact ((first start).withDeadline held origin (by linarith)).mono (later _ start)
  · rw [taken] at sorted
    have le : c.start ≤ c.clock 2 := by
      simp only [List.pairwise_cons, List.mem_cons, forall_eq_or_imp] at sorted
      exact sorted.1.2.1
    have second := ((first (by simp [taken])).mono le).pass
    exact (second.removeIfHeld key).mono (later _ (by simp [taken]))
  · exact fresh_inTurn _ _ _ _ t

/-! ## The store as a map with deadlines -/

/-- The values and the deadlines. -/
def expiring (s : MemoryStore ℚ) : ExpiringMap String String ℚ :=
  ⟨fun k => (s.data.get? k).map fun v => (v, s.expiresAt.get? k)⟩

theorem expiring_value (s : MemoryStore ℚ) (k : String) : s.expiring.value k = s.data.get? k := by
  rw [ExpiringMap.value, expiring, Option.map_map]
  exact congrFun Option.map_id _

theorem expiring_isSome (s : MemoryStore ℚ) (k : String) : (s.expiring.get? k).isSome = s.data.contains k :=
  Option.isSome_map

theorem put_expiring (s : MemoryStore ℚ) (key value : String) :
    (s.put key value).expiring = s.expiring.put key value := by
  ext1
  funext k
  simp only [expiring, put_data, put_expiresAt, ExpiringMap.put]
  split <;> rfl

theorem removeIfHeld_expiring (s : MemoryStore ℚ) (key : String) :
    (s.removeIfHeld key).expiring = s.expiring.erase key := by
  ext1
  funext k
  simp only [ExpiringMap.erase, expiring, removeIfHeld_data]
  split
  · rfl
  · rename_i other
    unfold removeIfHeld
    split
    · show Option.map (fun v => (v, (s.expiresAt.erase key).get? k)) _ = _
      rw [Dict.get?_erase_ne _ other]
    · rfl

theorem withDeadline_expiring (s : MemoryStore ℚ) (key : String) (d : ℚ) :
    (s.withDeadline key d).expiring = s.expiring.setDeadline key d := by
  ext1
  funext k
  simp only [ExpiringMap.setDeadline, expiring, withDeadline_expiresAt, Option.map_map]
  split <;> rfl

/-- No key is a turn late. -/
theorem InTurn.deadline_lt (h : InTurn s t) {k : String} {d : ℚ} (timed : s.expiresAt.get? k = some d)
    (stays : ¬ s.Due t k) : t < d + s.revolution := by
  obtain ⟨o, known, _⟩ := h.origin timed
  have ticks : s.timingWheel.tickAt t < s.timingWheel.tickAt d + s.timingWheel.bucketCount := by
    by_contra late
    exact stays (h.due timed (not_lt.mp late))
  have pos := s.timingWheel.tick_pos
  simp only [tickAt, known, Option.getD_some, Int.floor_lt] at ticks
  push_cast at ticks
  have below := Int.floor_le ((d - o) / s.timingWheel.tickSeconds)
  have quotients : (t - o) / s.timingWheel.tickSeconds <
    (d - o) / s.timingWheel.tickSeconds + s.timingWheel.bucketCount := by linarith
  rw [div_add' _ _ _ pos.ne', div_lt_div_iff_of_pos_right pos] at quotients
  rw [revolution]
  linarith

/-- **A pass** is an expiry with a turn's slack. -/
theorem InTurn.pass_expires (h : InTurn s t) {slack : ℚ} (turn : s.revolution ≤ slack) :
    s.expiring.Expires slack t (s.pass t).expiring := by
  intro k
  by_cases due : s.Due t k
  · obtain ⟨d, timed, past⟩ := due.deadline h.toValid
    obtain ⟨v, held⟩ := h.held k d timed
    have gone : (s.pass t).data.get? k = none :=
      Option.eq_none_iff_forall_ne_some.mpr fun v found => ((pass_data h.toValid t k v).mp found).2 due
    refine .inr ⟨by simp only [expiring, gone, Option.map_none], v, d, ?_, past⟩
    simp only [expiring, held, timed, Option.map_some]
  · have value : (s.pass t).data.get? k = s.data.get? k := Option.ext fun v => by
      rw [pass_data h.toValid]
      exact and_iff_left due
    have deadline : (s.pass t).expiresAt.get? k = s.expiresAt.get? k := Option.ext fun d => by
      rw [pass_expiresAt h.toValid]
      exact and_iff_left due
    refine .inl ⟨by simp only [expiring, value, deadline], fun v d held => ?_⟩
    obtain ⟨_, _, same⟩ := Option.map_eq_some_iff.mp held
    have late := h.deadline_lt (congrArg Prod.snd same) due
    linarith

end LiteStore.MemoryStore
