import LiteStore.Py.Collections
import LiteStore.Time
import Mathlib.Data.List.Sort

/-!
# The timing wheel

`src/timing_wheel.py` over any timestamps. A wheel value carries the two checks
of its constructor and the length of its bucket list, so `bucketForTick` always
finds a bucket. Methods that change the wheel return the new wheel.
-/

namespace LiteStore
set_option autoImplicit false
open Py

/-- `_ScheduledEntry`. -/
structure ScheduledEntry (τ : Type) where
  key : String
  expiresAt : τ
  scheduledTick : Int
deriving DecidableEq

/-- A key that `popDue` hands over. -/
structure TimerEntry (τ : Type) where
  key : String
  expiresAt : τ
deriving DecidableEq

/-- Expiration scheduler with a fixed number of time buckets. -/
structure TimingWheel (τ : Type) [LinearOrder τ] [Zero τ] where
  tickSeconds : τ
  bucketCount : Nat
  buckets : List (OrdSet String)
  entriesByKey : Dict String (ScheduledEntry τ)
  lastProcessedTick : Int
  originTimestamp : Option τ
  tick_pos : 0 < tickSeconds
  count_pos : 0 < bucketCount
  buckets_length : buckets.length = bucketCount
deriving DecidableEq

namespace TimingWheel
variable {τ : Type} [LinearOrder τ] [Zero τ]

/-- `TimingWheel(tick_seconds, bucket_count)`; its two `ValueError`s are the
missing proofs. -/
def fresh (tickSeconds : τ) (bucketCount : Nat) (tick_pos : 0 < tickSeconds)
    (count_pos : 0 < bucketCount) : TimingWheel τ where
  tickSeconds := tickSeconds
  bucketCount := bucketCount
  buckets := List.replicate bucketCount OrdSet.empty
  entriesByKey := Dict.empty
  lastProcessedTick := -1
  originTimestamp := none
  tick_pos := tick_pos
  count_pos := count_pos
  buckets_length := List.length_replicate

/-- `TimingWheel()`: ticks of `0.1`, 512 buckets. -/
def default [Timestamp τ] : TimingWheel τ :=
  fresh Timestamp.tenth 512 Timestamp.tenth_pos (by decide)

/-- `tick % self._bucket_count`. -/
def bucketIndex (w : TimingWheel τ) (tick : Int) : Nat := (tick % (w.bucketCount : Int)).toNat

/-- `_bucket_for_tick`. -/
def bucketForTick (w : TimingWheel τ) (tick : Int) : OrdSet String :=
  w.buckets.getD (w.bucketIndex tick) OrdSet.empty

/-- The wheel with its origin set, to `timestamp` if it had none. -/
def anchor (w : TimingWheel τ) (timestamp : τ) : TimingWheel τ :=
  { w with originTimestamp := some (w.originTimestamp.getD timestamp) }

/-- In-place change of the bucket of `tick`. -/
def modifyBucket (w : TimingWheel τ) (tick : Int) (f : OrdSet String → OrdSet String) :
    TimingWheel τ :=
  { w with
    buckets := w.buckets.modify (w.bucketIndex tick) f
    buckets_length := by rw [List.length_modify, w.buckets_length] }

/-- The wheel with another entry map. -/
def withEntries (w : TimingWheel τ) (entries : Dict String (ScheduledEntry τ)) : TimingWheel τ :=
  { w with entriesByKey := entries }

/-- `_entries_by_key[key] = entry` and `_bucket_for_tick(scheduled_tick).add(key)`. -/
def place (w : TimingWheel τ) (entry : ScheduledEntry τ) : TimingWheel τ :=
  (w.withEntries (w.entriesByKey.set entry.key entry)).modifyBucket entry.scheduledTick
    fun bucket => bucket.add entry.key

/-- `cancel`: pop the entry and discard its key from its bucket. -/
def cancel (w : TimingWheel τ) (key : String) : TimingWheel τ :=
  match w.entriesByKey.get? key with
  | none => w
  | some entry =>
    (w.withEntries (w.entriesByKey.erase key)).modifyBucket entry.scheduledTick
      fun bucket => bucket.discard key

/-- One key of the inner loop of `pop_due`. -/
def visit (now : τ) (tick : Int) (acc : List (TimerEntry τ) × TimingWheel τ) (key : String) :
    List (TimerEntry τ) × TimingWheel τ :=
  let (due, w) := acc
  match w.entriesByKey.get? key with
  | none => (due, w.modifyBucket tick fun bucket => bucket.discard key)
  | some entry =>
    if entry.scheduledTick > tick then (due, w)
    else
      let w := w.modifyBucket tick fun bucket => bucket.discard key
      if entry.expiresAt ≤ now then
        (due ++ [⟨entry.key, entry.expiresAt⟩], w.withEntries (w.entriesByKey.erase key))
      else
        -- Re-queue when the bucket wraps before the absolute expiry tick.
        (due, w.modifyBucket entry.scheduledTick fun bucket => bucket.add key)

/-- One tick of the outer loop; `tuple(bucket)` fixes the keys before any is visited. -/
def drainTick (now : τ) (acc : List (TimerEntry τ) × TimingWheel τ) (tick : Int) :
    List (TimerEntry τ) × TimingWheel τ :=
  (acc.2.bucketForTick tick).elems.foldl (visit now tick) acc

/-- `range(last + 1, current + 1)`. -/
def ticksBetween (last current : Int) : List Int :=
  (List.range (current - last).toNat).map fun i : Nat => last + 1 + (i : Int)

/-- The body of `pop_due` once the tick of `now` is known. -/
def popDueAt (w : TimingWheel τ) (now : τ) (current : Int) :
    List (TimerEntry τ) × TimingWheel τ :=
  if current ≤ w.lastProcessedTick then ([], w)
  else
    let (due, w') := (ticksBetween w.lastProcessedTick current).foldl (drainTick now) ([], w)
    (due.insertionSort fun a b => a.expiresAt ≤ b.expiresAt,
      { w' with lastProcessedTick := current })

variable {m : Type → Type} [Monad m] [TimeArith m τ]

/-- `_tick_for_timestamp`: the first timestamp seen becomes the origin. -/
def tickForTimestamp (w : TimingWheel τ) (timestamp : τ) : m (Int × TimingWheel τ) := do
  let tick ← TimeArith.floorTicks timestamp (w.originTimestamp.getD timestamp) w.tickSeconds
  return (tick, w.anchor timestamp)

/-- One old entry of `_rebase_origin`, ticked again from the new origin. -/
def reschedule (w : TimingWheel τ) (entry : ScheduledEntry τ) : m (TimingWheel τ) := do
  let (tick, w) ← w.tickForTimestamp entry.expiresAt
  return w.place { entry with scheduledTick := tick }

/-- `_rebase_origin`. -/
def rebaseOrigin (w : TimingWheel τ) (origin : τ) : m (TimingWheel τ) := do
  let emptied : TimingWheel τ :=
    { w with
      originTimestamp := some origin
      buckets := List.replicate w.bucketCount OrdSet.empty
      entriesByKey := Dict.empty
      buckets_length := List.length_replicate }
  let last ← if w.lastProcessedTick < 0 then pure (-1) else do
    let timestamp ← TimeArith.afterTicks origin w.lastProcessedTick w.tickSeconds
    let (tick, _) ← emptied.tickForTimestamp timestamp
    pure tick
  w.entriesByKey.values.foldlM reschedule { emptied with lastProcessedTick := last }

/-- `schedule`. -/
def schedule (w : TimingWheel τ) (key : String) (expiresAt : τ) : m (TimingWheel τ) := do
  let w ← if w.originTimestamp.any fun origin => expiresAt < origin then w.rebaseOrigin expiresAt
    else pure w
  let (tick, w) ← w.tickForTimestamp expiresAt
  return (w.cancel key).place ⟨key, expiresAt, tick⟩

/-- `pop_due`: unschedule and return the entries due at or before `now`. -/
def popDue (w : TimingWheel τ) (now : τ) : m (List (TimerEntry τ) × TimingWheel τ) := do
  let (current, w) ← w.tickForTimestamp now
  return w.popDueAt now current

end TimingWheel
end LiteStore
