import LiteStore.Wheel.Drain
import Mathlib.Tactic.Linarith
import Mathlib.Tactic.FieldSimp

/-!
# The wheel in exact time

Over the rationals no method raises, and a wheel reached from an empty one is
`Valid`: entries and buckets are in step and every scheduled tick is the rounded
quotient of its deadline and the current origin. What the rest of the
development uses of a wheel is its set of pending deadlines, `deadline?`:
`schedule_spec`, `cancel_spec` and `popDue_spec` say what each method does to it.
-/

namespace LiteStore.TimingWheel
set_option autoImplicit false
open Py

section View

variable {τ : Type} [LinearOrder τ] [Zero τ]

/-- The pending deadline of a key. -/
def deadline? (w : TimingWheel τ) (key : String) : Option τ :=
  (w.entriesByKey.get? key).map ScheduledEntry.expiresAt

theorem deadline?_eq_some {w : TimingWheel τ} {key : String} {d : τ} :
    w.deadline? key = some d ↔ ∃ e, w.entriesByKey.get? key = some e ∧ e.expiresAt = d :=
  Option.map_eq_some_iff

theorem deadline?_cancel (w : TimingWheel τ) (key k : String) :
    (w.cancel key).deadline? k = if k = key then none else w.deadline? k := by
  rw [deadline?, cancel_entries, Dict.get?_erase]
  split <;> rfl

theorem deadline?_place (w : TimingWheel τ) (e : ScheduledEntry τ) (k : String) :
    (w.place e).deadline? k = if k = e.key then some e.expiresAt else w.deadline? k := by
  rw [deadline?, place_entries, Dict.get?_set]
  split <;> rfl

/-- The entries of a wheel, as the list a rebase takes. -/
theorem mem_values {w : TimingWheel τ} (h : w.Indexed) {e : ScheduledEntry τ} :
    e ∈ w.entriesByKey.values ↔ w.entriesByKey.get? e.key = some e := by
  rw [Dict.values, List.mem_map]
  constructor
  · rintro ⟨⟨k, e⟩, member, rfl⟩
    have found := Dict.mem_entries.mp member
    rwa [h.keyed k e found]
  · intro found
    exact ⟨(e.key, e), Dict.mem_entries.mpr found, rfl⟩

theorem values_keys_nodup {w : TimingWheel τ} (h : w.Indexed) :
    (w.entriesByKey.values.map ScheduledEntry.key).Nodup := by
  have same : w.entriesByKey.values.map ScheduledEntry.key = w.entriesByKey.keys := by
    rw [Dict.values, Dict.keys, List.map_map]
    apply List.map_congr_left
    rintro ⟨k, e⟩ member
    exact h.keyed k e (Dict.mem_entries.mp member)
  rw [same]
  exact w.entriesByKey.keys_nodup

/-- Filing entries with keys of their own that are not scheduled. -/
theorem place_all (entries : List (ScheduledEntry τ)) {w : TimingWheel τ} (h : w.Indexed)
    (distinct : (entries.map ScheduledEntry.key).Nodup)
    (absent : ∀ e ∈ entries, w.entriesByKey.get? e.key = none) :
    (entries.foldl place w).Indexed ∧ SameFrame w (entries.foldl place w) ∧
      ∀ k e, (entries.foldl place w).entriesByKey.get? k = some e ↔
        w.entriesByKey.get? k = some e ∨ (e ∈ entries ∧ e.key = k) := by
  induction entries generalizing w with
  | nil => exact ⟨h, ⟨rfl, rfl, rfl, rfl⟩, by simp⟩
  | cons e entries ih =>
    obtain ⟨new, distinct⟩ := List.nodup_cons.mp distinct
    have absent' : ∀ e' ∈ entries, (w.place e).entriesByKey.get? e'.key = none := by
      intro e' member
      have other : e'.key ≠ e.key := fun same => new (same ▸ List.mem_map_of_mem member)
      rw [place_entries, Dict.get?_set_ne _ _ other]
      exact absent e' (by simp [member])
    obtain ⟨indexed, frame, found⟩ := ih (place_indexed h (absent e (by simp))) distinct absent'
    refine ⟨indexed, frame, fun k e' => ?_⟩
    rw [List.foldl_cons, found, place_entries, Dict.get?_set, List.mem_cons]
    by_cases here : k = e.key
    · subst here
      rw [if_pos rfl, absent e (by simp), Option.some.injEq]
      simp only [reduceCtorEq, false_or]
      constructor
      · rintro (rfl | ⟨member, named⟩)
        · exact ⟨Or.inl rfl, rfl⟩
        · exact ⟨Or.inr member, named⟩
      · rintro ⟨same | member, named⟩
        · exact Or.inl same.symm
        · exact Or.inr ⟨member, named⟩
    · rw [if_neg here]
      refine or_congr_right ⟨?_, ?_⟩
      · rintro ⟨member, named⟩
        exact ⟨Or.inr member, named⟩
      · rintro ⟨rfl | member, named⟩
        · exact absurd named.symm here
        · exact ⟨member, named⟩

/-- The old entries, ticked anew. -/
def reticked (w : TimingWheel τ) (tick : τ → Int) : List (ScheduledEntry τ) :=
  w.entriesByKey.values.map fun e => { e with scheduledTick := tick e.expiresAt }

/-- Filing the old entries, ticked anew, into a wheel without entries. -/
theorem place_reticked {w v : TimingWheel τ} (h : w.Indexed) (indexed : v.Indexed)
    (empty : v.entriesByKey = Dict.empty) (tick : τ → Int) :
    let w' := (w.reticked tick).foldl place v
    w'.Indexed ∧ SameFrame v w' ∧ (∀ k, w'.deadline? k = w.deadline? k) ∧
      ∀ k e, w'.entriesByKey.get? k = some e →
        w.deadline? k = some e.expiresAt ∧ e.scheduledTick = tick e.expiresAt := by
  have keys : (w.reticked tick).map ScheduledEntry.key = w.entriesByKey.values.map ScheduledEntry.key := by
    rw [reticked, List.map_map]
    rfl
  obtain ⟨indexed', frame, found⟩ := place_all (w.reticked tick) indexed
    (by rw [keys]; exact values_keys_nodup h) (fun e _ => by rw [empty]; rfl)
  have entry : ∀ k e, ((w.reticked tick).foldl place v).entriesByKey.get? k = some e ↔
      ∃ old, w.entriesByKey.get? k = some old ∧ e = { old with scheduledTick := tick old.expiresAt } := by
    intro k e
    have none : (Dict.empty : Dict String (ScheduledEntry τ)).get? k ≠ some e := nofun
    rw [found, empty, or_iff_right none, reticked, List.mem_map]
    constructor
    · rintro ⟨⟨old, listed, rfl⟩, rfl⟩
      exact ⟨old, (mem_values h).mp listed, rfl⟩
    · rintro ⟨old, there, rfl⟩
      have named := h.keyed k old there
      exact ⟨⟨old, (mem_values h).mpr (named ▸ there), rfl⟩, named⟩
  refine ⟨indexed', frame, fun k => Option.ext fun d => ?_, fun k e there => ?_⟩
  · rw [deadline?_eq_some, deadline?_eq_some]
    constructor
    · rintro ⟨e, there, rfl⟩
      obtain ⟨old, before, rfl⟩ := (entry k e).mp there
      exact ⟨old, before, rfl⟩
    · rintro ⟨old, there, rfl⟩
      exact ⟨_, (entry k _).mpr ⟨old, there, rfl⟩, rfl⟩
  · obtain ⟨old, before, rfl⟩ := (entry k e).mp there
    exact ⟨deadline?_eq_some.mpr ⟨old, before, rfl⟩, rfl⟩

end View

/-- The tick `_tick_for_timestamp` answers. -/
def tickAt (w : TimingWheel ℚ) (t : ℚ) : Int :=
  ⌊(t - w.originTimestamp.getD t) / w.tickSeconds⌋

/-- The invariant of a wheel in exact time. -/
structure Valid (w : TimingWheel ℚ) : Prop extends Indexed w where
  ticked : ∀ k e, w.entriesByKey.get? k = some e →
    ∃ origin, w.originTimestamp = some origin ∧ origin ≤ e.expiresAt ∧
      e.scheduledTick = ⌊(e.expiresAt - origin) / w.tickSeconds⌋
  started : -1 ≤ w.lastProcessedTick

theorem fresh_valid (tick : ℚ) (count : Nat) (tick_pos count_pos) :
    (fresh tick count tick_pos count_pos).Valid where
  toIndexed := fresh_indexed tick count tick_pos count_pos
  ticked := by intro k e h; cases h
  started := le_refl _

/-- The scheduled tick of an entry is the tick of its deadline. -/
theorem Valid.tick_eq {w : TimingWheel ℚ} (h : w.Valid) {k : String} {e}
    (found : w.entriesByKey.get? k = some e) : e.scheduledTick = w.tickAt e.expiresAt := by
  obtain ⟨origin, known, _, tick⟩ := h.ticked k e found
  rw [tick, tickAt, known, Option.getD_some]

theorem popDue_exact (w : TimingWheel ℚ) (now : ℚ) :
    Id.run (w.popDue now) = (w.anchor now).popDueAt now (w.tickAt now) := rfl

theorem anchor_of_known {w : TimingWheel ℚ} {o : ℚ} (known : w.originTimestamp = some o) (t : ℚ) :
    w.anchor t = w := by
  cases w; simp only at known; subst known; rfl

/-- Setting an unset origin keeps a wheel valid: it has no entries then. -/
theorem anchor_valid {w : TimingWheel ℚ} (h : w.Valid) (t : ℚ) : (w.anchor t).Valid where
  toIndexed := h.toIndexed.congr rfl rfl rfl
  ticked := by
    intro k e found
    obtain ⟨origin, known, rest⟩ := h.ticked k e found
    exact ⟨origin, by simp [anchor, known], rest⟩
  started := h.started

theorem cancel_valid {w : TimingWheel ℚ} (h : w.Valid) (key : String) : (w.cancel key).Valid := by
  obtain ⟨_, seconds, last, origin⟩ := cancel_fields w key
  refine ⟨cancel_indexed h.toIndexed key, ?_, by rw [last]; exact h.started⟩
  intro k e found
  rw [cancel_entries, Dict.get?_erase] at found
  split at found
  · cases found
  · rw [origin, seconds]; exact h.ticked k e found

/-- Filing a fresh entry ticked from the current origin keeps a wheel valid. -/
theorem place_valid {w : TimingWheel ℚ} (h : w.Valid) {e : ScheduledEntry ℚ} {origin : ℚ}
    (known : w.originTimestamp = some origin) (after : origin ≤ e.expiresAt)
    (tick : e.scheduledTick = ⌊(e.expiresAt - origin) / w.tickSeconds⌋)
    (absent : w.entriesByKey.get? e.key = none) : (w.place e).Valid := by
  refine ⟨place_indexed h.toIndexed absent, ?_, h.started⟩
  intro k e' found
  rw [place_entries, Dict.get?_set] at found
  split at found
  · cases found; exact ⟨origin, known, after, tick⟩
  · exact h.ticked k e' found

/-! ## Rebasing -/

theorem reschedule_exact (w : TimingWheel ℚ) (e : ScheduledEntry ℚ) {origin : ℚ}
    (known : w.originTimestamp = some origin) :
    Id.run (w.reschedule e) =
      w.place { e with scheduledTick := ⌊(e.expiresAt - origin) / w.tickSeconds⌋ } := by
  have run : Id.run (w.reschedule e) =
    (w.anchor e.expiresAt).place { e with scheduledTick := w.tickAt e.expiresAt } := rfl
  rw [run, anchor_of_known known, tickAt, known, Option.getD_some]

/-- Filing old entries anew. -/
theorem reschedule_all (entries : List (ScheduledEntry ℚ)) {w : TimingWheel ℚ} {origin : ℚ}
    (known : w.originTimestamp = some origin) :
    entries.foldl (fun w e => Id.run (w.reschedule e)) w = (entries.map fun e => { e with
      scheduledTick := ⌊(e.expiresAt - origin) / w.tickSeconds⌋ }).foldl place w := by
  induction entries generalizing w with
  | nil => rfl
  | cons e entries ih =>
    rw [List.foldl_cons, reschedule_exact w e known, ih (w := w.place _) known]
    rfl

/-- The wheel that `rebaseOrigin` files the old entries into. -/
def emptied (w : TimingWheel ℚ) (origin : ℚ) : TimingWheel ℚ :=
  { w with
    originTimestamp := some origin
    buckets := List.replicate w.bucketCount OrdSet.empty
    entriesByKey := Dict.empty
    buckets_length := List.length_replicate }

theorem emptied_valid {w : TimingWheel ℚ} (h : w.Valid) (origin : ℚ) : (w.emptied origin).Valid where
  toIndexed := (fresh_indexed w.tickSeconds w.bucketCount w.tick_pos w.count_pos).congr rfl rfl rfl
  ticked := by intro k e found; cases found
  started := h.started

/-- A rebase keeps the number of the last processed tick. -/
theorem rebaseOrigin_exact {w : TimingWheel ℚ} (h : w.Valid) (origin : ℚ) :
    Id.run (w.rebaseOrigin origin) =
      w.entriesByKey.values.foldl (fun w e => Id.run (w.reschedule e)) (w.emptied origin) := by
  have last : (if w.lastProcessedTick < 0 then -1 else
      ⌊(origin + (w.lastProcessedTick : ℚ) * w.tickSeconds - origin) / w.tickSeconds⌋) =
      w.lastProcessedTick := by
    have started := h.started
    split
    · omega
    · rw [add_sub_cancel_left, mul_div_cancel_right₀ _ w.tick_pos.ne', Int.floor_intCast]
  rw [rebaseOrigin]
  by_cases unprocessed : w.lastProcessedTick < 0
  · rw [if_pos unprocessed] at last
    simp only [if_pos unprocessed]
    change Id.run (List.foldlM reschedule _ _) = _
    rw [List.idRun_foldlM]
    simp only [emptied, ← last]
    rfl
  · rw [if_neg unprocessed] at last
    simp only [if_neg unprocessed]
    change Id.run (List.foldlM reschedule _ _) = _
    rw [List.idRun_foldlM]
    congr 1
    simp only [emptied]
    congr 1

theorem rebaseOrigin_spec {w : TimingWheel ℚ} (h : w.Valid) (origin : ℚ)
    (before : ∀ o, w.originTimestamp = some o → origin ≤ o) :
    let w' := Id.run (w.rebaseOrigin origin)
    w'.Valid ∧ SameFrame (w.emptied origin) w' ∧ ∀ k, w'.deadline? k = w.deadline? k := by
  intro w'
  have run : w' = (w.reticked fun d => ⌊(d - origin) / w.tickSeconds⌋).foldl place (w.emptied origin) :=
    (rebaseOrigin_exact h origin).trans (reschedule_all (w := w.emptied origin) w.entriesByKey.values rfl)
  rw [run]
  obtain ⟨indexed, frame, deadlines, found⟩ := place_reticked h.toIndexed (emptied_valid h origin).toIndexed
    rfl fun d => ⌊(d - origin) / w.tickSeconds⌋
  refine ⟨⟨indexed, fun k e there => ?_, ?_⟩, frame, deadlines⟩
  · obtain ⟨pending, ticked⟩ := found k e there
    obtain ⟨old, there', same⟩ := deadline?_eq_some.mp pending
    obtain ⟨o, known, after, _⟩ := h.ticked k old there'
    refine ⟨origin, frame.2.2.2, ?_, by rw [ticked, frame.1]; rfl⟩
    rw [← same]
    exact le_trans (before o known) after
  · rw [frame.2.2.1]
    exact h.started

/-! ## The three methods -/

theorem cancel_spec {w : TimingWheel ℚ} (h : w.Valid) (key : String) :
    (w.cancel key).Valid ∧
      ∀ k, (w.cancel key).deadline? k = if k = key then none else w.deadline? k :=
  ⟨cancel_valid h key, deadline?_cancel w key⟩

/-- The last step of `schedule`, from a wheel whose origin is not after the deadline. -/
theorem schedule_place {w : TimingWheel ℚ} (h : w.Valid) {origin d : ℚ} (key : String)
    (known : w.originTimestamp = some origin) (after : origin ≤ d) :
    let w' := (w.cancel key).place ⟨key, d, ⌊(d - origin) / w.tickSeconds⌋⟩
    w'.Valid ∧ SameFrame w w' ∧
      ∀ k, w'.deadline? k = if k = key then some d else w.deadline? k := by
  obtain ⟨count, seconds, last, same⟩ := cancel_fields w key
  refine ⟨place_valid (cancel_valid h key) (same.trans known) after (by rw [seconds]) ?_,
    ⟨seconds, count, last, same⟩, fun k => ?_⟩
  · rw [cancel_entries]; exact Dict.get?_erase_self _ _
  · rw [deadline?_place, deadline?_cancel]
    split <;> rfl

/-- The origin `schedule` leaves: the earlier of the old one and the deadline. -/
def originAfter (w : TimingWheel ℚ) (d : ℚ) : ℚ := min (w.originTimestamp.getD d) d

/-- **Schedule.** The key gets the deadline, no other key's deadline changes, and the
wheel's configuration and the number of its last processed tick stay. -/
theorem schedule_spec {w : TimingWheel ℚ} (h : w.Valid) (key : String) (d : ℚ) :
    let w' := Id.run (w.schedule key d)
    w'.Valid ∧ w'.tickSeconds = w.tickSeconds ∧ w'.bucketCount = w.bucketCount ∧
      w'.lastProcessedTick = w.lastProcessedTick ∧
      w'.originTimestamp = some (w.originAfter d) ∧
      ∀ k, w'.deadline? k = if k = key then some d else w.deadline? k := by
  have place (v : TimingWheel ℚ) (run : Id.run (w.schedule key d) =
      ((v.anchor d).cancel key).place ⟨key, d, v.tickAt d⟩) (valid : v.Valid) (o : ℚ)
      (known : (v.anchor d).originTimestamp = some o) (tick : v.originTimestamp.getD d = o)
      (after : o ≤ d) := by
    have placed := schedule_place (anchor_valid valid d) key known after
    rwa [show (v.anchor d).tickSeconds = v.tickSeconds from rfl, ← tick,
      show ⌊(d - v.originTimestamp.getD d) / v.tickSeconds⌋ = v.tickAt d from rfl, ← run] at placed
  by_cases early : w.originTimestamp.any fun origin => d < origin
  · obtain ⟨o, known, less⟩ := (Option.any_eq_true _ _).mp early
    have less : d < o := by simpa using less
    obtain ⟨valid, ⟨seconds, count, last, origin⟩, same⟩ := rebaseOrigin_spec h d
      (by intro o' known'; cases known.symm.trans known'; exact less.le)
    have origin : (Id.run (w.rebaseOrigin d)).originTimestamp = some d := origin
    have run : Id.run (w.schedule key d) = (((Id.run (w.rebaseOrigin d)).anchor d).cancel key).place
        ⟨key, d, (Id.run (w.rebaseOrigin d)).tickAt d⟩ := by
      rw [schedule, if_pos early]; rfl
    obtain ⟨valid', ⟨seconds', count', last', origin'⟩, deadlines⟩ :=
      place _ run valid d (by rw [anchor_of_known origin, origin]) (by rw [origin]; rfl) (le_refl d)
    refine ⟨valid', seconds'.trans seconds, count'.trans count, last'.trans last, ?_, ?_⟩
    · rw [origin', anchor_of_known origin, origin, originAfter, known, Option.getD_some,
        min_eq_right less.le]
    · intro k
      rw [deadlines, anchor_of_known origin, same]
  · have run : Id.run (w.schedule key d) =
        ((w.anchor d).cancel key).place ⟨key, d, w.tickAt d⟩ := by
      rw [schedule, if_neg early]; rfl
    have after : w.originTimestamp.getD d ≤ d := by
      cases known : w.originTimestamp with
      | none => exact le_refl d
      | some o => simpa [known] using early
    obtain ⟨valid', ⟨seconds', count', last', origin'⟩, deadlines⟩ :=
      place w run h _ rfl rfl after
    refine ⟨valid', seconds', count', last', ?_, deadlines⟩
    rw [origin', originAfter, min_eq_left after]; rfl

/-- **Expiry.** `pop_due` hands over exactly the entries that fire at `now`, each once and
in deadline order, and keeps every other deadline. -/
theorem popDue_spec {w : TimingWheel ℚ} (h : w.Valid) (now : ℚ) :
    let due := (Id.run (w.popDue now)).1
    let w' := (Id.run (w.popDue now)).2
    w'.Valid ∧ w'.tickSeconds = w.tickSeconds ∧ w'.bucketCount = w.bucketCount ∧
      w'.originTimestamp = some (w.originTimestamp.getD now) ∧
      w'.lastProcessedTick = max w.lastProcessedTick (w.tickAt now) ∧
      (∀ k e, w'.entriesByKey.get? k = some e ↔
        w.entriesByKey.get? k = some e ∧ ¬ w.Fires now (w.tickAt now) e) ∧
      (∀ x, x ∈ due ↔ ∃ e, w.entriesByKey.get? e.key = some e ∧
        w.Fires now (w.tickAt now) e ∧ x = ⟨e.key, e.expiresAt⟩) ∧
      (due.map TimerEntry.key).Nodup ∧ due.Pairwise fun a b => a.expiresAt ≤ b.expiresAt := by
  rw [popDue_exact]
  have anchored := anchor_valid h now
  obtain ⟨indexed, seconds, count, origin, last, kept, rest⟩ :=
    popDueAt_spec anchored.toIndexed now (w.tickAt now)
  refine ⟨⟨indexed, ?_, ?_⟩, seconds, count, origin, last, kept, rest⟩
  · intro k e found
    rw [origin, seconds]
    exact anchored.ticked k e ((kept k e).mp found).1
  · rw [last]; exact le_max_of_le_left h.started

end LiteStore.TimingWheel
