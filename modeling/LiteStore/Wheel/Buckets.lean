import LiteStore.Wheel.Calls

/-!
# The bucket array

`Indexed` speaks of the bucket of a tick. Here the same is said of the list of buckets itself: in
every wheel that calls reach, a scheduled key is in the one bucket whose index is its tick modulo the
number of buckets, and the buckets hold no other keys (`buckets_represented`).
-/

namespace LiteStore.TimingWheel
set_option autoImplicit false
open Py

/-- A wheel of `count` buckets whose ticks are `tick` long: the entries, the buckets and the origin fit
together. -/
structure Represented (tick : ℚ) (count : Nat) (w : TimingWheel ℚ) : Prop where
  size : w.buckets.length = count
  keyed : ∀ key e, w.entriesByKey.get? key = some e → e.key = key
  /-- A scheduled key is in exactly one bucket. -/
  filed : ∀ key e, w.entriesByKey.get? key = some e →
    ∃ i : Nat, (i : Int) = e.scheduledTick % count ∧ i < w.buckets.length ∧
      ∀ j (bound : j < w.buckets.length), key ∈ w.buckets[j] ↔ j = i
  /-- Every key in a bucket is scheduled. -/
  scheduled : ∀ bucket ∈ w.buckets, ∀ key ∈ bucket, ∃ e, w.entriesByKey.get? key = some e
  /-- Ticks are counted from the current origin. -/
  ticked : ∀ key e, w.entriesByKey.get? key = some e → ∃ origin, w.originTimestamp = some origin ∧
    e.scheduledTick = ⌊(e.expiresAt - origin) / tick⌋ ∧ 0 ≤ e.scheduledTick

section Buckets

variable {τ : Type} [LinearOrder τ] [Zero τ] {w : TimingWheel τ}

theorem index_emod {i : Nat} (bound : i < w.buckets.length) : (i : Int) % w.bucketCount = i := by
  rw [w.buckets_length] at bound
  exact Int.emod_eq_of_lt (by omega) (by exact_mod_cast bound)

/-- A bucket's index is the first tick that falls into it. -/
theorem bucketForTick_index {i : Nat} (bound : i < w.buckets.length) :
    w.bucketForTick i = w.buckets[i] := by
  have index : w.bucketIndex i = i := by
    rw [bucketIndex, index_emod bound, Int.toNat_natCast]
  rw [bucketForTick, index, List.getD_eq_getElem?_getD, List.getElem?_eq_getElem bound, Option.getD_some]

/-- The bucket at an index holds the keys whose tick falls on the index. -/
theorem Indexed.mem_getElem (h : w.Indexed) {key : String} {i : Nat} (bound : i < w.buckets.length) :
    key ∈ w.buckets[i] ↔
      ∃ e, w.entriesByKey.get? key = some e ∧ (i : Int) = e.scheduledTick % w.bucketCount := by
  rw [← bucketForTick_index bound, h.bucket]
  refine exists_congr fun e => and_congr_right fun _ => ?_
  rw [Int.ModEq, index_emod bound]
  exact eq_comm

/-- A scheduled key is in one bucket. -/
theorem Indexed.filed (h : w.Indexed) {key : String} {e : ScheduledEntry τ}
    (found : w.entriesByKey.get? key = some e) :
    ∃ i : Nat, (i : Int) = e.scheduledTick % w.bucketCount ∧ i < w.buckets.length ∧
      ∀ j (bound : j < w.buckets.length), key ∈ w.buckets[j] ↔ j = i := by
  have pos : (0 : Int) < w.bucketCount := by exact_mod_cast w.count_pos
  have low := Int.emod_nonneg e.scheduledTick pos.ne'
  have high := Int.emod_lt_of_pos e.scheduledTick pos
  refine ⟨(e.scheduledTick % w.bucketCount).toNat, by omega, by rw [w.buckets_length]; omega, ?_⟩
  intro j bound
  rw [h.mem_getElem bound, found]
  constructor
  · rintro ⟨e', same, index⟩
    cases same
    omega
  · intro index
    exact ⟨e, rfl, by omega⟩

/-- A bucket holds scheduled keys only. -/
theorem Indexed.scheduled (h : w.Indexed) {bucket : OrdSet String} (listed : bucket ∈ w.buckets)
    {key : String} (held : key ∈ bucket) : ∃ e, w.entriesByKey.get? key = some e := by
  obtain ⟨i, bound, rfl⟩ := List.mem_iff_getElem.mp listed
  obtain ⟨e, found, _⟩ := (h.mem_getElem bound).mp held
  exact ⟨e, found⟩

end Buckets

/-- No scheduled tick is before the origin's. -/
theorem Valid.tick_nonneg {w : TimingWheel ℚ} (h : w.Valid) {key : String} {e : ScheduledEntry ℚ}
    (found : w.entriesByKey.get? key = some e) : 0 ≤ e.scheduledTick := by
  obtain ⟨origin, _, after, tick⟩ := h.ticked key e found
  rw [tick]
  apply Int.floor_nonneg.mpr
  exact div_nonneg (sub_nonneg.mpr after) w.tick_pos.le

/-- **The representation of the wheel** in every state that calls with any timestamps reach. -/
theorem buckets_represented (tick : ℚ) (count : Nat) (tick_pos : 0 < tick) (count_pos : 0 < count)
    (calls : List WheelCall) :
    Represented tick count (wheelMachine.after (fresh tick count tick_pos count_pos) calls) := by
  obtain ⟨valid, seconds, buckets⟩ := calls_valid (fresh_valid tick count tick_pos count_pos) calls
  change _ = tick at seconds
  change _ = count at buckets
  set w := wheelMachine.after (fresh tick count tick_pos count_pos) calls
  constructor
  · rw [w.buckets_length, buckets]
  · exact valid.keyed
  · intro key e found
    rw [← buckets]
    exact valid.filed found
  · intro bucket listed key held
    exact valid.scheduled listed held
  · intro key e found
    obtain ⟨origin, known, _, ticked⟩ := valid.ticked key e found
    rw [seconds] at ticked
    exact ⟨origin, known, ticked, valid.tick_nonneg found⟩

theorem one_second_pos : (0 : ℚ) < 1 := by decide +kernel

/-- A wheel of four buckets with a rebase and a key that is put back. -/
theorem rebased_wheel_represented :
    Represented 1 4 (wheelMachine.after (fresh 1 4 one_second_pos (by decide))
      [.popDue 0, .schedule "a" (11 / 2), .popDue (21 / 4), .schedule "b" (-3), .cancel "c"]) :=
  buckets_represented 1 4 one_second_pos (by decide) _

end LiteStore.TimingWheel
