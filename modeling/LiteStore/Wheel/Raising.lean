import LiteStore.Wheel.Exact

/-!
# The wheel where time can raise

Over any timestamps whose arithmetic may raise, a method of the wheel returns exactly when the ticks
it computes are defined (`HasTick`), and what it returns is then the same as if nothing could raise:
entries and buckets stay in step, and the pending deadlines change as they do in exact time.
-/

namespace LiteStore.TimingWheel
set_option autoImplicit false
open Py

variable {τ : Type} [LinearOrder τ] [Zero τ] [TimeArith (Except PyError) τ] {w : TimingWheel τ}

/-- `math.floor((t - origin) / tick)` returns. -/
def HasTick (t origin tick : τ) : Prop :=
  ∃ n, TimeArith.floorTicks (m := Except PyError) t origin tick = .ok n

/-- That number, and zero where there is none. -/
def tickOf (t origin tick : τ) : Int :=
  match TimeArith.floorTicks (m := Except PyError) t origin tick with
  | .ok n => n
  | .error _ => 0

omit [LinearOrder τ] [Zero τ] in
theorem floorTicks_eq {t origin tick : τ} (defined : HasTick t origin tick) :
    TimeArith.floorTicks (m := Except PyError) t origin tick = .ok (tickOf t origin tick) := by
  obtain ⟨n, same⟩ := defined
  rw [same, tickOf, same]

theorem tickForTimestamp_ok {t : τ} {r : Int × TimingWheel τ} :
    w.tickForTimestamp (m := Except PyError) t = .ok r ↔
      HasTick t (w.originTimestamp.getD t) w.tickSeconds ∧
        r = (tickOf t (w.originTimestamp.getD t) w.tickSeconds, w.anchor t) := by
  rw [tickForTimestamp, bind_eq_ok]
  constructor
  · rintro ⟨n, ticked, same⟩
    have equal := (floorTicks_eq ⟨n, ticked⟩).symm.trans ticked
    cases same
    exact ⟨⟨n, ticked⟩, by rw [Except.ok.inj equal]⟩
  · rintro ⟨defined, rfl⟩
    exact ⟨_, floorTicks_eq defined, rfl⟩

/-- **Expiry** returns when the reading has a tick. -/
theorem popDue_ok {now : τ} {r : List (TimerEntry τ) × TimingWheel τ} :
    w.popDue (m := Except PyError) now = .ok r ↔
      HasTick now (w.originTimestamp.getD now) w.tickSeconds ∧
        r = (w.anchor now).popDueAt now (tickOf now (w.originTimestamp.getD now) w.tickSeconds) := by
  rw [popDue, bind_eq_ok]
  constructor
  · rintro ⟨⟨n, anchored⟩, ticked, same⟩
    obtain ⟨defined, equal⟩ := tickForTimestamp_ok.mp ticked
    cases equal
    exact ⟨defined, (Except.ok.inj same).symm⟩
  · rintro ⟨defined, rfl⟩
    exact ⟨_, tickForTimestamp_ok.mpr ⟨defined, rfl⟩, rfl⟩

/-! ## Rebasing -/

omit [TimeArith (Except PyError) τ] in
theorem anchor_known {o : τ} (known : w.originTimestamp = some o) (t : τ) : w.anchor t = w := by
  cases w; simp only at known; subst known; rfl

/-- One old entry. -/
theorem reschedule_ok {e : ScheduledEntry τ} {o : τ} (known : w.originTimestamp = some o)
    {w' : TimingWheel τ} :
    w.reschedule (m := Except PyError) e = .ok w' ↔ HasTick e.expiresAt o w.tickSeconds ∧
      w' = w.place { e with scheduledTick := tickOf e.expiresAt o w.tickSeconds } := by
  rw [reschedule, bind_eq_ok]
  constructor
  · rintro ⟨⟨n, anchored⟩, ticked, same⟩
    obtain ⟨defined, equal⟩ := tickForTimestamp_ok.mp ticked
    rw [known, Option.getD_some] at defined equal
    rw [anchor_known known] at equal
    cases equal
    exact ⟨defined, (Except.ok.inj same).symm⟩
  · rintro ⟨defined, rfl⟩
    refine ⟨(tickOf e.expiresAt o w.tickSeconds, w), tickForTimestamp_ok.mpr ?_, rfl⟩
    rw [known, Option.getD_some, anchor_known known]
    exact ⟨defined, rfl⟩

/-- All old entries: they are filed with their ticks from the new origin. -/
theorem rescheduleAll_ok (entries : List (ScheduledEntry τ)) {o : τ} (known : w.originTimestamp = some o)
    {w' : TimingWheel τ} :
    entries.foldlM (reschedule (m := Except PyError)) w = .ok w' ↔
      (∀ e ∈ entries, HasTick e.expiresAt o w.tickSeconds) ∧ w' = (entries.map fun e => { e with
        scheduledTick := tickOf e.expiresAt o w.tickSeconds }).foldl place w := by
  induction entries generalizing w with
  | nil => exact ⟨fun same => ⟨by simp, (Except.ok.inj same).symm⟩, fun same => congrArg Except.ok same.2.symm⟩
  | cons e entries ih =>
    have rest := ih (w := w.place { e with scheduledTick := tickOf e.expiresAt o w.tickSeconds }) known
    rw [List.foldlM_cons, bind_eq_ok, List.forall_mem_cons, and_assoc, List.map_cons, List.foldl_cons]
    constructor
    · rintro ⟨w₁, first, filed⟩
      obtain ⟨defined, rfl⟩ := (reschedule_ok known).mp first
      exact ⟨defined, rest.mp filed⟩
    · rintro ⟨defined, filed⟩
      exact ⟨_, (reschedule_ok known).mpr ⟨defined, rfl⟩, rest.mpr filed⟩

omit [TimeArith (Except PyError) τ] in
theorem length_emptied (w : TimingWheel τ) :
    (List.replicate w.bucketCount (OrdSet.empty : OrdSet String)).length = w.bucketCount :=
  List.length_replicate

/-- The wheel that a rebase files the old entries into. -/
def emptiedAt (w : TimingWheel τ) (origin : τ) (last : Int) : TimingWheel τ :=
  { w with
    originTimestamp := some origin
    buckets := List.replicate w.bucketCount OrdSet.empty
    entriesByKey := Dict.empty
    buckets_length := w.length_emptied
    lastProcessedTick := last }

omit [TimeArith (Except PyError) τ] in
theorem emptiedAt_indexed (w : TimingWheel τ) (origin : τ) (last : Int) : (w.emptiedAt origin last).Indexed :=
  (fresh_indexed w.tickSeconds w.bucketCount w.tick_pos w.count_pos).congr rfl rfl rfl

/-- The times of a rebase have ticks from the new origin: that of the last processed tick, and the
deadlines. -/
structure Rebasable (w : TimingWheel τ) (origin : τ) : Prop where
  last : 0 ≤ w.lastProcessedTick → ∃ t,
    TimeArith.afterTicks (m := Except PyError) origin w.lastProcessedTick w.tickSeconds = .ok t ∧
      HasTick t origin w.tickSeconds
  entries : ∀ k d, w.deadline? k = some d → HasTick d origin w.tickSeconds

/-- The tick that a rebase takes for the last processed one. -/
def rebasedLast (w : TimingWheel τ) (origin : τ) : Except PyError Int :=
  if w.lastProcessedTick < 0 then pure (-1) else do
    let timestamp ← TimeArith.afterTicks origin w.lastProcessedTick w.tickSeconds
    let (tick, _) ← (w.emptiedAt origin w.lastProcessedTick).tickForTimestamp timestamp
    pure tick

theorem rebaseOrigin_eq (w : TimingWheel τ) (origin : τ) :
    w.rebaseOrigin (m := Except PyError) origin = (do
      let last ← w.rebasedLast origin
      w.entriesByKey.values.foldlM reschedule (w.emptiedAt origin last)) := by
  rw [rebaseOrigin, rebasedLast]
  split
  · rfl
  · simp only [bind_assoc, pure_bind]
    rfl

theorem rebasedLast_ok {origin : τ} : (∃ last, w.rebasedLast origin = .ok last) ↔
    (0 ≤ w.lastProcessedTick → ∃ t,
      TimeArith.afterTicks (m := Except PyError) origin w.lastProcessedTick w.tickSeconds = .ok t ∧
        HasTick t origin w.tickSeconds) := by
  rw [rebasedLast]
  split
  · exact ⟨fun _ => by omega, fun _ => ⟨-1, rfl⟩⟩
  · rename_i processed
    simp only [bind_eq_ok, tickForTimestamp_ok]
    constructor
    · rintro ⟨last, t, computed, _, ⟨defined, _⟩, _⟩ _
      exact ⟨t, computed, defined⟩
    · intro each
      obtain ⟨t, computed, defined⟩ := each (by omega)
      exact ⟨_, t, computed, _, ⟨defined, rfl⟩, rfl⟩

/-- **A rebase** returns when its times have ticks. -/
theorem rebaseOrigin_ok (h : w.Indexed) {origin : τ} :
    (∃ w', w.rebaseOrigin (m := Except PyError) origin = .ok w') ↔ w.Rebasable origin := by
  have entries : (∀ e ∈ w.entriesByKey.values, HasTick e.expiresAt origin w.tickSeconds) ↔
      ∀ k d, w.deadline? k = some d → HasTick d origin w.tickSeconds := by
    constructor
    · intro each k d pending
      obtain ⟨e, found, rfl⟩ := deadline?_eq_some.mp pending
      exact each e ((mem_values h).mpr (h.keyed k e found ▸ found))
    · intro each e m
      exact each e.key _ (deadline?_eq_some.mpr ⟨e, (mem_values h).mp m, rfl⟩)
  simp only [rebaseOrigin_eq, bind_eq_ok]
  constructor
  · rintro ⟨w', last, computed, filed⟩
    exact ⟨rebasedLast_ok.mp ⟨last, computed⟩,
      entries.mp ((rescheduleAll_ok (w := w.emptiedAt origin last) _ rfl).mp filed).1⟩
  · rintro ⟨last, each⟩
    obtain ⟨last, computed⟩ := rebasedLast_ok.mpr last
    exact ⟨_, last, computed, (rescheduleAll_ok (w := w.emptiedAt origin last) w.entriesByKey.values rfl).mpr
      ⟨entries.mpr each, rfl⟩⟩

theorem rebaseOrigin_keeps (h : w.Indexed) {origin : τ} {w' : TimingWheel τ}
    (done : w.rebaseOrigin (m := Except PyError) origin = .ok w') :
    w'.Indexed ∧ w'.tickSeconds = w.tickSeconds ∧ w'.originTimestamp = some origin ∧
      ∀ k, w'.deadline? k = w.deadline? k := by
  rw [rebaseOrigin_eq, bind_eq_ok] at done
  obtain ⟨last, _, filed⟩ := done
  obtain ⟨_, rfl⟩ := (rescheduleAll_ok (w := w.emptiedAt origin last) _ rfl).mp filed
  obtain ⟨indexed, ⟨seconds, _, _, known⟩, deadlines, _⟩ := place_reticked h
    (w.emptiedAt_indexed origin last) rfl fun d => tickOf d origin w.tickSeconds
  exact ⟨indexed, seconds, known, deadlines⟩

/-! ## Scheduling -/

/-- The times of `schedule` have ticks: the deadline, from the earlier of the origin and itself, and
what a rebase computes if it is earlier. -/
structure Schedulable (w : TimingWheel τ) (d : τ) : Prop where
  tick : HasTick d (min (w.originTimestamp.getD d) d) w.tickSeconds
  rebase : ∀ o, w.originTimestamp = some o → d < o → w.Rebasable d

/-- `schedule` after its rebase. -/
def scheduleFrom (w : TimingWheel τ) (key : String) (d : τ) : Except PyError (TimingWheel τ) := do
  let (tick, w) ← w.tickForTimestamp d
  return (w.cancel key).place ⟨key, d, tick⟩

theorem schedule_eq (w : TimingWheel τ) (key : String) (d : τ) :
    w.schedule (m := Except PyError) key d =
      if w.originTimestamp.any fun origin => d < origin then
        w.rebaseOrigin (m := Except PyError) d >>= fun w => w.scheduleFrom key d
      else w.scheduleFrom key d := by
  rw [schedule]
  split <;> rfl

theorem scheduleFrom_ok {key : String} {d : τ} {w' : TimingWheel τ} :
    w.scheduleFrom key d = .ok w' ↔ HasTick d (w.originTimestamp.getD d) w.tickSeconds ∧
      w' = ((w.anchor d).cancel key).place
        ⟨key, d, tickOf d (w.originTimestamp.getD d) w.tickSeconds⟩ := by
  rw [scheduleFrom, bind_eq_ok]
  constructor
  · rintro ⟨⟨n, anchored⟩, ticked, same⟩
    obtain ⟨defined, equal⟩ := tickForTimestamp_ok.mp ticked
    cases equal
    exact ⟨defined, (Except.ok.inj same).symm⟩
  · rintro ⟨defined, rfl⟩
    exact ⟨_, tickForTimestamp_ok.mpr ⟨defined, rfl⟩, rfl⟩

theorem scheduleFrom_spec (h : w.Indexed) {key : String} {d : τ} {w' : TimingWheel τ}
    (done : w.scheduleFrom key d = .ok w') :
    w'.Indexed ∧ ∀ k, w'.deadline? k = if k = key then some d else w.deadline? k := by
  obtain ⟨_, rfl⟩ := scheduleFrom_ok.mp done
  have anchored : (w.anchor d).Indexed := h.congr rfl rfl rfl
  refine ⟨place_indexed (cancel_indexed anchored key) ?_, fun k => ?_⟩
  · rw [cancel_entries]
    exact Dict.get?_erase_self _ _
  · rw [deadline?_place, deadline?_cancel]
    split <;> rfl

/-- **Scheduling** returns when its times have ticks. -/
theorem schedule_ok (key : String) (h : w.Indexed) {d : τ} :
    (∃ w', w.schedule (m := Except PyError) key d = .ok w') ↔ w.Schedulable d := by
  rw [schedule_eq]
  split
  · rename_i early
    obtain ⟨o, known, less⟩ := (Option.any_eq_true _ _).mp early
    have less : d < o := of_decide_eq_true less
    simp only [bind_eq_ok, scheduleFrom_ok]
    constructor
    · rintro ⟨w', w₁, rebased, defined, _⟩
      obtain ⟨_, seconds, origin, _⟩ := rebaseOrigin_keeps h rebased
      rw [origin, seconds, Option.getD_some] at defined
      refine ⟨?_, fun _ _ _ => (rebaseOrigin_ok h).mp ⟨w₁, rebased⟩⟩
      rw [known, Option.getD_some, min_eq_right less.le]
      exact defined
    · rintro ⟨defined, rebasable⟩
      obtain ⟨w₁, rebased⟩ := (rebaseOrigin_ok h).mpr (rebasable o known less)
      obtain ⟨_, seconds, origin, _⟩ := rebaseOrigin_keeps h rebased
      rw [known, Option.getD_some, min_eq_right less.le] at defined
      refine ⟨_, w₁, rebased, ?_, rfl⟩
      rw [origin, seconds, Option.getD_some]
      exact defined
  · rename_i late
    have after : w.originTimestamp.getD d ≤ d := by
      cases known : w.originTimestamp with
      | none => exact le_refl d
      | some o => simpa [known] using late
    simp only [scheduleFrom_ok]
    constructor
    · rintro ⟨w', defined, _⟩
      refine ⟨by rwa [min_eq_left after], fun o known less => ?_⟩
      rw [known, Option.getD_some] at after
      exact absurd less (not_lt.mpr after)
    · rintro ⟨defined, _⟩
      exact ⟨_, by rwa [min_eq_left after] at defined, rfl⟩

theorem schedule_files (h : w.Indexed) {key : String} {d : τ} {w' : TimingWheel τ}
    (done : w.schedule (m := Except PyError) key d = .ok w') :
    w'.Indexed ∧ ∀ k, w'.deadline? k = if k = key then some d else w.deadline? k := by
  rw [schedule_eq] at done
  split at done
  · rw [bind_eq_ok] at done
    obtain ⟨w₁, rebased, done⟩ := done
    obtain ⟨indexed, _, _, same⟩ := rebaseOrigin_keeps h rebased
    obtain ⟨indexed', deadlines⟩ := scheduleFrom_spec indexed done
    exact ⟨indexed', fun k => by rw [deadlines, same]⟩
  · exact scheduleFrom_spec h done

end LiteStore.TimingWheel
