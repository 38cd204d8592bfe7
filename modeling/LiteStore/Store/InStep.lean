import LiteStore.Store.Calls

/-!
# Store and wheel in step

A deadline is kept twice, in `expiresAt` and in the wheel. In every state of a
history the two agree, entry by entry and bucket by bucket, and a pass answers
the number of keys it removes, wherever in a call it is made.
-/

namespace LiteStore.MemoryStore
set_option autoImplicit false
open Py

/-- Every deadline is one of a held key, and the wheel schedules exactly the deadlines, each
under its key and in the bucket of its tick. -/
structure InStep (s : MemoryStore ℚ) : Prop where
  held : ∀ k d, s.expiresAt.get? k = some d → s.data.contains k = true
  scheduled : ∀ k d, s.expiresAt.get? k = some d ↔
    ∃ tick, s.timingWheel.entriesByKey.get? k = some ⟨k, d, tick⟩
  filed : ∀ k e, s.timingWheel.entriesByKey.get? k = some e →
    k ∈ s.timingWheel.bucketForTick e.scheduledTick

/-- The keys that are in the first store and not in the second. -/
def removedKeys (s s' : MemoryStore ℚ) : List String :=
  s.data.keys.filter fun k => !s'.data.contains k

/-- The expiry passes of a step, nested ones included: the store before each and its reading. -/
def StoreStep.passes (s : MemoryStore ℚ) (step : StoreStep) : List (MemoryStore ℚ × ℚ) :=
  machine.collect (fun s c => s.passes c) s step.calls

variable {s : MemoryStore ℚ}

theorem Valid.inStep (h : s.Valid) : s.InStep where
  held k d timed := Dict.contains_iff.mpr (h.held k d timed)
  scheduled k d := by
    rw [← h.timed, TimingWheel.deadline?_eq_some]
    constructor
    · rintro ⟨e, found, rfl⟩
      have named := h.wheel.keyed k e found
      subst named
      exact ⟨e.scheduledTick, found⟩
    · rintro ⟨tick, found⟩
      exact ⟨_, found, rfl⟩
  filed k e found := (h.wheel.bucket k e.scheduledTick).mpr ⟨e, found, Int.ModEq.refl _⟩

/-- A pass answers the number of keys it removes. -/
theorem passCount_eq (h : s.Valid) (t : ℚ) : s.passCount t = (removedKeys s (s.pass t)).length := by
  obtain ⟨_, _, _, _, _, _, _, distinct, _⟩ := TimingWheel.popDue_spec h.wheel t
  have count : s.passCount t = ((Id.run (s.timingWheel.popDue t)).1.map TimerEntry.key).length := by
    rw [passCount, drainDue_eq h, List.length_map]
  rw [count]
  apply List.Perm.length_eq
  rw [removedKeys, List.perm_ext_iff_of_nodup distinct (s.data.keys_nodup.filter _)]
  intro k
  rw [mem_due_iff h, List.mem_filter, Dict.mem_keys]
  constructor
  · intro due
    obtain ⟨d, timed, _⟩ := due.deadline h
    have gone : (s.pass t).data.get? k = none :=
      Option.eq_none_iff_forall_ne_some.mpr fun v found => ((pass_data h t k v).mp found).2 due
    exact ⟨h.held k d timed, by simp [Dict.contains, gone]⟩
  · rintro ⟨⟨v, found⟩, gone⟩
    by_contra stays
    have left := (pass_data h t k v).mpr ⟨found, stays⟩
    simp [Dict.contains, left] at gone

/-- The store before each pass of a call is valid. -/
theorem passes_valid (h : s.Valid) {c : StoreCall} {p : MemoryStore ℚ × ℚ} (made : p ∈ s.passes c) :
    p.1.Valid := by
  have first : ∀ {stores}, s.passes c = [(s, c.start)] ++ stores → p ∈ stores ∨ p.1.Valid := by
    intro stores passes
    rw [passes, List.singleton_append, List.mem_cons] at made
    exact made.symm.imp id fun same => by rw [same]; exact h
  have nested : ∀ {t}, p ∈ [(s.pass c.start, t)] → p.1.Valid := by
    intro t made
    rw [List.mem_singleton.mp made]
    exact pass_valid h c.start
  cases perform_effect s c with
  | passed _ passes => exact (first passes).resolve_left List.not_mem_nil
  | put _ _ _ passes => exact (first passes).resolve_left List.not_mem_nil
  | removed _ _ passes => exact (first passes).resolve_left List.not_mem_nil
  | expired _ _ _ _ _ passes => exact (first passes).elim nested id
  | timed _ _ _ _ _ passes => exact (first passes).resolve_left List.not_mem_nil
  | lapsed _ _ _ _ _ passes => exact (first passes).elim nested id
  | flushed _ passes => exact (first passes).resolve_left List.not_mem_nil

/-- The store before each pass of a list of calls is valid. -/
theorem collect_valid (h : s.Valid) (calls : List StoreCall) :
    ∀ p ∈ machine.collect (fun s c => s.passes c) s calls, p.1.Valid := by
  induction calls generalizing s with
  | nil => rintro p ⟨⟩
  | cons c calls ih =>
    intro p made
    rcases List.mem_append.mp made with here | later
    · exact passes_valid h here
    · exact ih (perform_valid h c) p later

/-- **Store and wheel stay in step.** In every state that a history of calls and replayed requests
reaches from an empty store, on a wheel of any tick and any number of buckets and with any readings,
deadlines and scheduled entries are the same, and every expiry pass of the next step answers the
number of keys it removes. -/
theorem store_wheel_in_step (tick : ℚ) (count : Nat) (tick_pos : 0 < tick) (count_pos : 0 < count)
    (steps : List StoreStep) :
    let s := steps.foldl advance (start tick count tick_pos count_pos)
    s.InStep ∧ ∀ step : StoreStep, ∀ p ∈ step.passes s,
      (Id.run (p.1.drainDue p.2)).1 = (removedKeys p.1 (Id.run (p.1.drainDue p.2)).2).length := by
  intro s
  have valid : s.Valid := by
    rw [show s = _ from run_eq_after _ steps]
    exact run_valid (start_valid tick count tick_pos count_pos) _
  exact ⟨valid.inStep, fun step p made => passCount_eq (collect_valid valid _ p made) p.2⟩

/-- A deadline before the wheel's origin, and then an `expire` without time left whose two passes
each have a key to remove. -/
theorem rebased_history_in_step :
    let s := [StoreStep.call ⟨.set "j" "u", Clock.still 8⟩, .call ⟨.set "k" "v", Clock.still 8⟩,
      .call ⟨.expire "j" 1, Clock.still 2⟩, .call ⟨.expire "k" 9, Clock.still 2⟩,
      .replay { command := .SET, args := ["l", "w"] } (Clock.still 2)].foldl advance
        (start 1 4 unit_tick (by decide))
    s.InStep ∧ ∀ p ∈ StoreStep.passes s (.call ⟨.expire "l" 0, fun n => 4 + 8 * n⟩),
      (Id.run (p.1.drainDue p.2)).1 = (removedKeys p.1 (Id.run (p.1.drainDue p.2)).2).length := by
  have holds := store_wheel_in_step 1 4 unit_tick (by decide)
    [.call ⟨.set "j" "u", Clock.still 8⟩, .call ⟨.set "k" "v", Clock.still 8⟩,
      .call ⟨.expire "j" 1, Clock.still 2⟩, .call ⟨.expire "k" 9, Clock.still 2⟩,
      .replay { command := .SET, args := ["l", "w"] } (Clock.still 2)]
  exact ⟨holds.1, holds.2 _⟩

end LiteStore.MemoryStore
