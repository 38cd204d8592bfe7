import LiteStore.Store.Model
import LiteStore.Wheel.Exact

/-!
# Store and wheel over any timestamps

What does not depend on how time is computed: `Coherent` ties the store's deadlines to the wheel's,
the changes of one key keep it, and so does a pass of `process_expirations` at a given tick
(`drainAt`), which removes exactly the keys whose entries fire.
-/

namespace LiteStore.MemoryStore
set_option autoImplicit false
open Py

variable {τ : Type} [LinearOrder τ] [Zero τ] {s : MemoryStore τ}

/-- Only held keys have deadlines, and the wheel has exactly the store's deadlines. -/
structure Coherent (s : MemoryStore τ) : Prop where
  wheel : s.timingWheel.Indexed
  held : ∀ k d, s.expiresAt.get? k = some d → ∃ v, s.data.get? k = some v
  timed : ∀ k, s.timingWheel.deadline? k = s.expiresAt.get? k

theorem fresh_coherent {w : TimingWheel τ} (h : w.Indexed) (empty : w.entriesByKey = Dict.empty) :
    (fresh w).Coherent where
  wheel := h
  held := by intro k d found; cases found
  timed k := by simp [TimingWheel.deadline?, empty, fresh]

theorem put_coherent (h : s.Coherent) (key value : String) : (s.put key value).Coherent where
  wheel := TimingWheel.cancel_indexed h.wheel key
  held := by
    intro k d found
    have found : (s.expiresAt.erase key).get? k = some d := found
    show ∃ v, (s.data.set key value).get? k = some v
    rw [Dict.get?_erase] at found
    rw [Dict.get?_set]
    split
    · exact ⟨value, rfl⟩
    · rename_i other
      rw [if_neg other] at found
      exact h.held k d found
  timed k := by
    show (s.timingWheel.cancel key).deadline? k = (s.expiresAt.erase key).get? k
    rw [TimingWheel.deadline?_cancel, Dict.get?_erase, h.timed]

theorem remove_coherent (h : s.Coherent) (key : String) : (s.remove key).Coherent where
  wheel := TimingWheel.cancel_indexed h.wheel key
  held := by
    intro k d found
    have found : (s.expiresAt.erase key).get? k = some d := found
    show ∃ v, (s.data.erase key).get? k = some v
    rw [Dict.get?_erase] at found ⊢
    split
    · rename_i same; rw [if_pos same] at found; cases found
    · rename_i other; rw [if_neg other] at found; exact h.held k d found
  timed k := by
    show (s.timingWheel.cancel key).deadline? k = (s.expiresAt.erase key).get? k
    rw [TimingWheel.deadline?_cancel, Dict.get?_erase, h.timed]

/-- A held key gets a deadline, in the store and in the wheel. -/
theorem timed_coherent (h : s.Coherent) {key : String} (held : s.data.contains key = true) {d : τ}
    {w : TimingWheel τ} (indexed : w.Indexed)
    (deadlines : ∀ k, w.deadline? k = if k = key then some d else s.timingWheel.deadline? k) :
    Coherent { s with expiresAt := s.expiresAt.set key d, timingWheel := w } where
  wheel := indexed
  held := by
    intro k d' found
    have found : (s.expiresAt.set key d).get? k = some d' := found
    rw [Dict.get?_set] at found
    split at found
    · rename_i same; rw [same]; exact Dict.contains_iff.mp held
    · exact h.held k d' found
  timed k := by
    show w.deadline? k = (s.expiresAt.set key d).get? k
    rw [deadlines, Dict.get?_set, h.timed]

/-! ## The expiry pass -/

/-- Dropping entries whose deadlines the store agrees on and that are due removes exactly
their keys. -/
theorem dropEntries_eq {now : τ} (due : List (TimerEntry τ)) {n : Nat} {s : MemoryStore τ}
    (agreed : ∀ x ∈ due, s.expiresAt.get? x.key = some x.expiresAt ∧ x.expiresAt ≤ now ∧
      s.data.contains x.key = true)
    (distinct : (due.map TimerEntry.key).Nodup) :
    due.foldl (dropEntry now) (n, s) = (n + due.length,
      { s with
        data := s.data.filter fun e => e.1 ∉ due.map TimerEntry.key
        expiresAt := s.expiresAt.filter fun e => e.1 ∉ due.map TimerEntry.key }) := by
  induction due generalizing n s with
  | nil => simp [Dict.filter_true]
  | cons x due ih =>
    obtain ⟨fresh, distinct⟩ := List.nodup_cons.mp distinct
    obtain ⟨deadline, past, held⟩ := agreed x (by simp)
    have first : dropEntry now (n, s) x = (n + 1,
        { s with data := s.data.erase x.key, expiresAt := s.expiresAt.erase x.key }) := by
      simp only [dropEntry, deadline, gt_iff_lt, if_neg (not_lt.mpr past), held, if_true]
    have agreed' : ∀ y ∈ due, (s.expiresAt.erase x.key).get? y.key = some y.expiresAt ∧
        y.expiresAt ≤ now ∧ (s.data.erase x.key).contains y.key = true := by
      intro y member
      have other : y.key ≠ x.key := fun same => fresh (same ▸ List.mem_map_of_mem member)
      obtain ⟨deadline, past, held⟩ := agreed y (by simp [member])
      refine ⟨by rw [Dict.get?_erase_ne _ other]; exact deadline, past, ?_⟩
      rw [Dict.contains_iff] at held ⊢
      rwa [Dict.get?_erase_ne _ other]
    have keep : ∀ {ν : Type} (d : Dict String ν),
        ((d.erase x.key).filter fun e => decide (e.1 ∉ due.map TimerEntry.key)) =
          d.filter fun e => decide (e.1 ∉ (x :: due).map TimerEntry.key) := by
      intro ν d
      rw [Dict.erase, Dict.filter_filter]
      congr 1
      funext e
      simp [Bool.and_comm]
    rw [List.foldl_cons, first, ih agreed' distinct]
    simp only [keep, List.length_cons, Nat.add_assoc, Nat.add_comm 1]

/-- `process_expirations` once the tick of the reading is known. -/
def drainAt (s : MemoryStore τ) (now : τ) (current : Int) : Nat × MemoryStore τ :=
  let (due, wheel) := (s.timingWheel.anchor now).popDueAt now current
  due.foldl (dropEntry now) (0, { s with timingWheel := wheel })

/-- The keys such a pass removes. -/
def DueAt (s : MemoryStore τ) (now : τ) (current : Int) (key : String) : Prop :=
  ∃ e, s.timingWheel.entriesByKey.get? key = some e ∧ s.timingWheel.Fires now current e

section Drain

variable (now : τ) (current : Int)

/-- What a pass does to the three fields of the store. -/
theorem drainAt_eq (h : s.Coherent) :
    s.drainAt now current = (((s.timingWheel.anchor now).popDueAt now current).1.length,
      { data := s.data.filter fun e =>
          e.1 ∉ ((s.timingWheel.anchor now).popDueAt now current).1.map TimerEntry.key
        expiresAt := s.expiresAt.filter fun e =>
          e.1 ∉ ((s.timingWheel.anchor now).popDueAt now current).1.map TimerEntry.key
        timingWheel := ((s.timingWheel.anchor now).popDueAt now current).2 }) := by
  have anchored : (s.timingWheel.anchor now).Indexed := h.wheel.congr rfl rfl rfl
  obtain ⟨_, _, _, _, _, _, listed, distinct, _⟩ := TimingWheel.popDueAt_spec anchored now current
  show ((s.timingWheel.anchor now).popDueAt now current).1.foldl (dropEntry now)
    (0, { s with timingWheel := ((s.timingWheel.anchor now).popDueAt now current).2 }) = _
  rw [dropEntries_eq _ _ distinct, Nat.zero_add]
  intro x member
  obtain ⟨e, found, ⟨past, _⟩, rfl⟩ := (listed x).mp member
  have deadline : s.expiresAt.get? e.key = some e.expiresAt := by
    rw [← h.timed, TimingWheel.deadline?_eq_some]; exact ⟨e, found, rfl⟩
  exact ⟨deadline, past, Dict.contains_iff.mpr (h.held _ _ deadline)⟩

theorem mem_dueAt_iff (h : s.Coherent) (key : String) :
    key ∈ ((s.timingWheel.anchor now).popDueAt now current).1.map TimerEntry.key ↔
      s.DueAt now current key := by
  have anchored : (s.timingWheel.anchor now).Indexed := h.wheel.congr rfl rfl rfl
  obtain ⟨_, _, _, _, _, _, listed, _⟩ := TimingWheel.popDueAt_spec anchored now current
  rw [List.mem_map]
  constructor
  · rintro ⟨x, member, rfl⟩
    obtain ⟨e, found, fires, rfl⟩ := (listed x).mp member
    exact ⟨e, found, fires⟩
  · rintro ⟨e, found, fires⟩
    have named := h.wheel.keyed key e found
    exact ⟨_, (listed _).mpr ⟨e, named ▸ found, fires, rfl⟩, named⟩

theorem drainAt_data (h : s.Coherent) (k v : String) :
    (s.drainAt now current).2.data.get? k = some v ↔
      s.data.get? k = some v ∧ ¬ s.DueAt now current k := by
  rw [drainAt_eq now current h, Dict.get?_filter, Option.filter_eq_some_iff, decide_eq_true_eq,
    mem_dueAt_iff now current h]

theorem drainAt_expiresAt (h : s.Coherent) (k : String) (d : τ) :
    (s.drainAt now current).2.expiresAt.get? k = some d ↔
      s.expiresAt.get? k = some d ∧ ¬ s.DueAt now current k := by
  rw [drainAt_eq now current h, Dict.get?_filter, Option.filter_eq_some_iff, decide_eq_true_eq,
    mem_dueAt_iff now current h]

/-- What a pass leaves of the wheel's tick and position. -/
theorem drainAt_frame (h : s.Coherent) :
    (s.drainAt now current).2.timingWheel.tickSeconds = s.timingWheel.tickSeconds ∧
      (s.drainAt now current).2.timingWheel.originTimestamp =
        some (s.timingWheel.originTimestamp.getD now) ∧
      (s.drainAt now current).2.timingWheel.lastProcessedTick =
        max s.timingWheel.lastProcessedTick current := by
  have anchored : (s.timingWheel.anchor now).Indexed := h.wheel.congr rfl rfl rfl
  obtain ⟨_, seconds, _, origin, last, _⟩ := TimingWheel.popDueAt_spec anchored now current
  rw [drainAt_eq now current h]
  exact ⟨seconds, origin, last⟩

/-- A pass keeps store and wheel together. -/
theorem drainAt_coherent (h : s.Coherent) : (s.drainAt now current).2.Coherent := by
  have anchored : (s.timingWheel.anchor now).Indexed := h.wheel.congr rfl rfl rfl
  obtain ⟨indexed, _, _, _, _, kept, _⟩ := TimingWheel.popDueAt_spec anchored now current
  have wheel : (s.drainAt now current).2.timingWheel =
      ((s.timingWheel.anchor now).popDueAt now current).2 := by rw [drainAt_eq now current h]
  refine ⟨by rw [wheel]; exact indexed, ?_, ?_⟩
  · intro k d found
    obtain ⟨found, stays⟩ := (drainAt_expiresAt now current h k d).mp found
    obtain ⟨v, held⟩ := h.held k d found
    exact ⟨v, (drainAt_data now current h k v).mpr ⟨held, stays⟩⟩
  · intro k
    refine Option.ext fun d => ?_
    rw [wheel, drainAt_expiresAt now current h, ← h.timed, TimingWheel.deadline?_eq_some,
      TimingWheel.deadline?_eq_some]
    constructor
    · rintro ⟨e, found, rfl⟩
      obtain ⟨found, stays⟩ := (kept k e).mp found
      refine ⟨⟨e, found, rfl⟩, ?_⟩
      rintro ⟨e', found', fires⟩
      cases found.symm.trans found'
      exact stays fires
    · rintro ⟨⟨e, found, rfl⟩, stays⟩
      exact ⟨e, (kept k e).mpr ⟨found, fun fires => stays ⟨e, found, fires⟩⟩, rfl⟩

end Drain

end LiteStore.MemoryStore
