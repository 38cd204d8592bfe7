import LiteStore.Wheel.Model
import Mathlib.Data.Int.ModEq

/-!
# Entries and buckets

`Indexed` ties the two copies of a wheel's content together: a bucket holds
exactly the keys whose entry's tick falls into it. `place` and `cancel` keep it,
and so does the drain of `pop_due`, whose result `Drained` describes.
-/

namespace LiteStore.TimingWheel
set_option autoImplicit false
open Py

variable {τ : Type} [LinearOrder τ] [Zero τ]

/-- Every entry is filed under its own key, and a bucket holds exactly the keys
whose scheduled tick falls into it. -/
structure Indexed (w : TimingWheel τ) : Prop where
  keyed : ∀ k e, w.entriesByKey.get? k = some e → e.key = k
  bucket : ∀ k t, k ∈ w.bucketForTick t ↔
    ∃ e, w.entriesByKey.get? k = some e ∧ e.scheduledTick ≡ t [ZMOD w.bucketCount]

theorem bucketIndex_lt (w : TimingWheel τ) (t : Int) : w.bucketIndex t < w.buckets.length := by
  have pos : (0 : Int) < w.bucketCount := by exact_mod_cast w.count_pos
  have := Int.emod_nonneg t pos.ne'
  have := Int.emod_lt_of_pos t pos
  rw [w.buckets_length, bucketIndex]
  omega

theorem bucketIndex_eq_iff (w : TimingWheel τ) (s t : Int) :
    w.bucketIndex s = w.bucketIndex t ↔ s ≡ t [ZMOD w.bucketCount] := by
  have pos : (w.bucketCount : Int) ≠ 0 := by exact_mod_cast w.count_pos.ne'
  have := Int.emod_nonneg s pos
  have := Int.emod_nonneg t pos
  unfold bucketIndex Int.ModEq
  omega

@[simp] theorem modifyBucket_entriesByKey (w : TimingWheel τ) (t : Int) (f) :
    (w.modifyBucket t f).entriesByKey = w.entriesByKey := rfl

@[simp] theorem modifyBucket_bucketCount (w : TimingWheel τ) (t : Int) (f) :
    (w.modifyBucket t f).bucketCount = w.bucketCount := rfl

@[simp] theorem withEntries_entriesByKey (w : TimingWheel τ) (d) :
    (w.withEntries d).entriesByKey = d := rfl

@[simp] theorem withEntries_bucketCount (w : TimingWheel τ) (d) :
    (w.withEntries d).bucketCount = w.bucketCount := rfl

@[simp] theorem bucketForTick_withEntries (w : TimingWheel τ) (d) (t : Int) :
    (w.withEntries d).bucketForTick t = w.bucketForTick t := rfl

/-- Changing one bucket is seen at the ticks that fall into it only. -/
theorem bucketForTick_modifyBucket (w : TimingWheel τ) (t t' : Int) (f) :
    (w.modifyBucket t f).bucketForTick t' =
      if t ≡ t' [ZMOD w.bucketCount] then f (w.bucketForTick t') else w.bucketForTick t' := by
  have bound := w.bucketIndex_lt t'
  have modified : (w.modifyBucket t f).bucketForTick t' =
      (w.buckets.modify (w.bucketIndex t) f).getD (w.bucketIndex t') OrdSet.empty := rfl
  rw [modified, bucketForTick]
  simp only [← bucketIndex_eq_iff, List.getD_eq_getElem?_getD, List.getElem?_modify,
    List.getElem?_eq_getElem bound]
  split <;> rfl

theorem fresh_indexed (tick : τ) (count : Nat) (tick_pos count_pos) :
    (fresh tick count tick_pos count_pos).Indexed := by
  constructor
  · intro k e h; cases h
  · intro k t
    simp [fresh, bucketForTick, List.getD_eq_getElem?_getD, List.getElem?_replicate]
    split <;> simp

/-- Only entries, buckets and `bucketCount` matter to `Indexed`. -/
theorem Indexed.congr {w w' : TimingWheel τ} (h : w.Indexed) (entries : w'.entriesByKey = w.entriesByKey)
    (buckets : w'.buckets = w.buckets) (count : w'.bucketCount = w.bucketCount) : w'.Indexed := by
  have index : ∀ t, w'.bucketForTick t = w.bucketForTick t := by
    intro t; simp only [bucketForTick, bucketIndex, buckets, count]
  constructor
  · rw [entries]; exact h.keyed
  · intro k t; rw [index, entries, count]; exact h.bucket k t

theorem cancel_entries (w : TimingWheel τ) (key : String) :
    (w.cancel key).entriesByKey = w.entriesByKey.erase key := by
  unfold cancel
  split
  · rename_i absent; rw [Dict.erase_of_absent absent]
  · rfl

theorem cancel_fields (w : TimingWheel τ) (key : String) :
    (w.cancel key).bucketCount = w.bucketCount ∧ (w.cancel key).tickSeconds = w.tickSeconds ∧
      (w.cancel key).lastProcessedTick = w.lastProcessedTick ∧
      (w.cancel key).originTimestamp = w.originTimestamp := by
  unfold cancel
  split <;> exact ⟨rfl, rfl, rfl, rfl⟩

theorem cancel_indexed {w : TimingWheel τ} (h : w.Indexed) (key : String) : (w.cancel key).Indexed := by
  constructor
  · intro k e found
    rw [cancel_entries, Dict.get?_erase] at found
    split at found
    · cases found
    · exact h.keyed k e found
  · intro k t
    rw [cancel_entries, Dict.get?_erase, (cancel_fields w key).1]
    unfold cancel
    split
    · rename_i absent
      rw [h.bucket]
      by_cases same : k = key
      · subst same; simp [absent]
      · simp [same]
    · rename_i entry present
      rw [bucketForTick_modifyBucket, bucketForTick_withEntries, withEntries_bucketCount]
      by_cases same : k = key
      · subst same
        simp only [if_true]
        split
        · simp
        · rename_i apart
          constructor
          · intro member
            obtain ⟨e, found, tick⟩ := (h.bucket k t).mp member
            cases present.symm.trans found
            exact (apart tick).elim
          · rintro ⟨e, none, _⟩; cases none
      · rw [if_neg same, ← h.bucket]
        split
        · simp [same]
        · exact Iff.rfl

theorem place_entries (w : TimingWheel τ) (e : ScheduledEntry τ) :
    (w.place e).entriesByKey = w.entriesByKey.set e.key e := rfl

theorem place_fields (w : TimingWheel τ) (e : ScheduledEntry τ) :
    (w.place e).bucketCount = w.bucketCount ∧ (w.place e).tickSeconds = w.tickSeconds ∧
      (w.place e).lastProcessedTick = w.lastProcessedTick ∧
      (w.place e).originTimestamp = w.originTimestamp := ⟨rfl, rfl, rfl, rfl⟩

/-- Filing an entry whose key is not scheduled keeps entries and buckets in step. -/
theorem place_indexed {w : TimingWheel τ} (h : w.Indexed) {e : ScheduledEntry τ}
    (absent : w.entriesByKey.get? e.key = none) : (w.place e).Indexed := by
  constructor
  · intro k e' found
    rw [place_entries, Dict.get?_set] at found
    split at found
    · cases found; exact Eq.symm ‹_›
    · exact h.keyed k e' found
  · intro k t
    rw [place_entries, Dict.get?_set, (place_fields w e).1, place, bucketForTick_modifyBucket,
      bucketForTick_withEntries, withEntries_bucketCount]
    by_cases same : k = e.key
    · subst same
      have outside : e.key ∉ w.bucketForTick t := by
        rw [h.bucket, absent]; simp
      by_cases tick : e.scheduledTick ≡ t [ZMOD w.bucketCount] <;> simp [tick, outside]
    · simp only [if_neg same]
      split
      · rw [OrdSet.mem_add, h.bucket]; simp [same]
      · rw [h.bucket]

end LiteStore.TimingWheel
