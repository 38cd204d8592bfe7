import LiteStore.HotKeys.Sketch
import LiteStore.Py.Collections
import LiteStore.Py.Heapq
import Mathlib.Data.Prod.Lex
import Mathlib.Data.String.Basic

/-!
# The hot-key tracker

At most `k` keys are tracked, each with the estimate of its last access. The heap holds these
counts and, among them, stale ones that a later access replaced; they are dropped when they
reach the top or when the heap is rebuilt.

`Follows` relates a tracker to the accesses it has recorded. It says that a tracked count is
between the key's true count and its present estimate, that it stands in the heap, and that a
key left out was accessed at most as often as any tracked count says. One access keeps it
(`Follows.record`), so every run does.
-/

namespace LiteStore
set_option autoImplicit false

/-- `_HEAP_CLEANUP_RATIO`. -/
def heapCleanupRatio : Nat := 3

/-- `TopKTracker`. Heap entries are tuples `(count, key)` and compare as such. -/
structure TopKTracker where
  k : Nat
  sketch : CountMinSketch
  heap : Py.Heap (ℕ ×ₗ String)
  tracked : Py.Dict String Nat

namespace TopKTracker

/-- `TopKTracker(k, sketch_width, sketch_depth)`. -/
def init (k : Nat) (sketch : CountMinSketch) : TopKTracker := ⟨k, sketch, .empty, .empty⟩

/-- `self._tracked[key] = estimated` and `heapq.heappush(self._heap, (estimated, key))`. -/
def track (t : TopKTracker) (key : String) (estimated : Nat) : TopKTracker :=
  { t with
    tracked := t.tracked.set key estimated
    heap := t.heap.heappush (toLex (estimated, key)) }

/-- Rebuild the heap from the tracked counts. -/
def compactHeap (t : TopKTracker) : TopKTracker :=
  { t with heap := .heapify (t.tracked.entries.map fun e => toLex (e.2, e.1)) }

/-- `self._tracked.get(key) != count`. -/
def stale (t : TopKTracker) (entry : ℕ ×ₗ String) : Bool :=
  decide (t.tracked.get? (ofLex entry).2 ≠ some (ofLex entry).1)

/-- Drop the stale entries at the top of the heap. -/
def discardStale (t : TopKTracker) : TopKTracker := { t with heap := t.heap.discardWhile t.stale }

/-- `_peek_min()`: the least entry that is not stale, and the tracker afterwards. -/
def peekMin (t : TopKTracker) : Option (ℕ ×ₗ String) × TopKTracker :=
  (t.discardStale.heap.first?, t.discardStale)

/-- `_, evicted = heapq.heappop(self._heap)` and `del self._tracked[evicted]`; `none` is the
`IndexError` of the first or the `KeyError` of the second. -/
def evict (t : TopKTracker) : Option TopKTracker :=
  match t.heap.heappop? with
  | none => none
  | some (entry, heap) =>
    if t.tracked.contains (ofLex entry).2 then
      some { t with heap := heap, tracked := t.tracked.erase (ofLex entry).2 }
    else none

variable (hash : Nat → String → Nat)

/-- `record(key)`: record an access and update the tracked keys if necessary. -/
def record (t : TopKTracker) (key : String) : Option TopKTracker :=
  let sketch := t.sketch.increment hash key
  let estimated := sketch.estimate hash key
  let t := { t with sketch := sketch }
  if t.tracked.contains key then
    let t := t.track key estimated
    some (if t.k * heapCleanupRatio < t.heap.size then t.compactHeap else t)
  else if t.tracked.size < t.k then
    some (t.track key estimated)
  else
    match t.peekMin with
    | (none, t) => some t
    | (some least, t) =>
      if (ofLex least).1 < estimated then
        t.evict.map fun t => t.track key estimated
      else some t

/-- `record` of one key after the other. -/
def recordAll (t : TopKTracker) (keys : List String) : Option TopKTracker :=
  keys.foldlM (record hash) t

/-- `top_k()`: the tracked keys with their counts, descending by count. -/
def topK (t : TopKTracker) : List (String × Nat) :=
  t.tracked.entries.insertionSort fun a b => b.2 ≤ a.2

theorem mem_topK {t : TopKTracker} {key : String} {count : Nat} :
    (key, count) ∈ t.topK ↔ t.tracked.get? key = some count := by
  rw [topK, List.mem_insertionSort, Py.Dict.mem_entries]

theorem length_topK (t : TopKTracker) : t.topK.length = t.tracked.size :=
  List.length_insertionSort _ _

/-! ## One access -/

/-- The tracker after `self._sketch.increment(key)`. -/
def incremented (t : TopKTracker) (key : String) : TopKTracker :=
  { t with sketch := t.sketch.increment hash key }

/-- The estimate of a key that an access to it reads. -/
def estimated (t : TopKTracker) (key : String) : Nat := (t.sketch.increment hash key).estimate hash key

/-- What an access to `key` can do. -/
inductive Recorded (t : TopKTracker) (key : String) : TopKTracker → Prop where
  | pushed (there : t.tracked.contains key = true)
      (small : ((t.incremented hash key).track key (t.estimated hash key)).heap.size ≤
        t.k * heapCleanupRatio) :
      Recorded t key ((t.incremented hash key).track key (t.estimated hash key))
  | compacted (there : t.tracked.contains key = true)
      (large : t.k * heapCleanupRatio <
        ((t.incremented hash key).track key (t.estimated hash key)).heap.size) :
      Recorded t key ((t.incremented hash key).track key (t.estimated hash key)).compactHeap
  | added (absent : t.tracked.contains key = false) (room : t.tracked.size < t.k) :
      Recorded t key ((t.incremented hash key).track key (t.estimated hash key))
  | refused (absent : t.tracked.contains key = false) (full : t.k ≤ t.tracked.size)
      (below : ∀ least, (t.incremented hash key).discardStale.heap.first? = some least →
        t.estimated hash key ≤ (ofLex least).1) :
      Recorded t key (t.incremented hash key).discardStale
  | replaced (absent : t.tracked.contains key = false) (full : t.k ≤ t.tracked.size)
      {least : ℕ ×ₗ String} {rest : Py.Heap (ℕ ×ₗ String)}
      (popped : (t.incremented hash key).discardStale.heap.heappop? = some (least, rest))
      (current : t.tracked.get? (ofLex least).2 = some (ofLex least).1)
      (above : (ofLex least).1 < t.estimated hash key) :
      Recorded t key
        ({ t.incremented hash key with
            heap := rest
            tracked := t.tracked.erase (ofLex least).2 }.track key (t.estimated hash key))

/-- The first entry that is not stale is current. -/
theorem get?_of_peekMin {t : TopKTracker} {least : ℕ ×ₗ String} (first : t.peekMin.1 = some least) :
    t.tracked.get? (ofLex least).2 = some (ofLex least).1 := by
  have kept := Py.Heap.first?_discardWhile first
  exact not_not.mp (of_decide_eq_false kept)

/-- The first entry of a heap leaves with the key it is current for. -/
theorem evict_popped {t : TopKTracker} {least : ℕ ×ₗ String} {rest : Py.Heap (ℕ ×ₗ String)}
    (popped : t.heap.heappop? = some (least, rest))
    (current : t.tracked.get? (ofLex least).2 = some (ofLex least).1) :
    t.evict = some { t with heap := rest, tracked := t.tracked.erase (ofLex least).2 } := by
  simp only [evict, popped]
  exact if_pos (Py.Dict.contains_iff.mpr ⟨_, current⟩)

/-- An access raises no exception: what it evicts is tracked. -/
theorem record_recorded (t : TopKTracker) (key : String) :
    ∃ t', t.record hash key = some t' ∧ Recorded hash t key t' := by
  unfold record
  by_cases there : t.tracked.contains key = true
  · simp only [if_pos there]
    refine ⟨_, rfl, ?_⟩
    split
    · exact .compacted there ‹_›
    · exact .pushed there (not_lt.mp ‹_›)
  have absent : t.tracked.contains key = false := Bool.not_eq_true _ ▸ there
  simp only [if_neg there]
  by_cases room : t.tracked.size < t.k
  · rw [if_pos room]
    exact ⟨_, rfl, .added absent room⟩
  rw [if_neg room]
  have full := not_lt.mp room
  simp only [peekMin]
  cases first : (discardStale { t with sketch := t.sketch.increment hash key }).heap.first? with
  | none =>
    refine ⟨_, rfl, .refused absent full fun least found => ?_⟩
    cases first.symm.trans found
  | some least =>
    have current : t.tracked.get? (ofLex least).2 = some (ofLex least).1 :=
      get?_of_peekMin (t := t.incremented hash key) first
    obtain ⟨rest, popped⟩ := Py.Heap.first?_eq_some.mp first
    by_cases above : (ofLex least).1 < t.estimated hash key
    · refine ⟨_, ?_, .replaced absent full popped current above⟩
      simp only [evict_popped popped current]
      exact if_pos above
    · refine ⟨_, if_neg above, .refused absent full fun other found => ?_⟩
      cases first.symm.trans found
      exact not_lt.mp above

variable {hash} in
/-- Every access is one of these. -/
theorem recorded_of_record {t t' : TopKTracker} {key : String} (recorded : t.record hash key = some t') :
    Recorded hash t key t' := by
  obtain ⟨t₁, done, h⟩ := record_recorded hash t key
  cases recorded.symm.trans done
  exact h

/-! ## What the tracker knows -/

theorem count_snoc (history : List String) (key key' : String) :
    (history ++ [key]).count key' = history.count key' + if key = key' then 1 else 0 := by
  rw [List.count_append, List.count_singleton]
  by_cases h : key = key' <;> simp [h]

/-- The tracker `t` of capacity `k` has recorded the accesses of `history`. -/
structure Follows (k : Nat) (history : List String) (t : TopKTracker) : Prop where
  capacity : t.k = k
  sketched : ∀ key, history.count key ≤ t.sketch.estimate hash key
  counted : ∀ key count, t.tracked.get? key = some count →
    history.count key ≤ count ∧ count ≤ t.sketch.estimate hash key
  queued : ∀ key count, t.tracked.get? key = some count → toLex (count, key) ∈ t.heap
  bounded : t.tracked.size ≤ k
  room : t.tracked.size < k → ∀ key ∈ history, t.tracked.contains key = true
  below : ∀ key other count, t.tracked.get? key = none → t.tracked.get? other = some count →
    history.count key ≤ count

/-- An access to `key` after `history` has been counted in the sketch, the keys other than `key`
are in place, and there is room for `key`. -/
structure Awaits (k : Nat) (history : List String) (key : String) (t : TopKTracker) : Prop where
  capacity : t.k = k
  sketched : ∀ other, (history ++ [key]).count other ≤ t.sketch.estimate hash other
  counted : ∀ other count, other ≠ key → t.tracked.get? other = some count →
    history.count other ≤ count ∧ count ≤ t.sketch.estimate hash other
  queued : ∀ other count, other ≠ key → t.tracked.get? other = some count →
    toLex (count, other) ∈ t.heap
  fits : (t.tracked.set key (t.sketch.estimate hash key)).size ≤ k
  room : (t.tracked.set key (t.sketch.estimate hash key)).size < k →
    ∀ other ∈ history, other ≠ key → t.tracked.contains other = true
  below : ∀ other third count, other ≠ key → t.tracked.get? other = none →
    t.tracked.get? third = some count → history.count other ≤ count
  under : ∀ other, other ≠ key → t.tracked.get? other = none →
    history.count other ≤ t.sketch.estimate hash key

variable {hash} {k : Nat} {history : List String} {t : TopKTracker}

/-- Tracking the key with its estimate completes the access. -/
theorem Awaits.track {key : String} (h : Awaits hash k history key t) :
    Follows hash k (history ++ [key]) (t.track key (t.sketch.estimate hash key)) where
  capacity := h.capacity
  sketched := h.sketched
  counted other count found := by
    simp only [TopKTracker.track, Py.Dict.get?_set] at found
    split at found
    · rename_i same
      cases found
      subst same
      exact ⟨h.sketched other, le_refl _⟩
    · rename_i different
      rw [count_snoc, if_neg (Ne.symm different)]
      exact h.counted other count different found
  queued other count found := by
    simp only [TopKTracker.track, Py.Dict.get?_set] at found
    apply Py.Heap.mem_heappush.mpr
    split at found
    · rename_i same
      cases found
      exact .inl (by rw [same])
    · rename_i different
      exact .inr (h.queued other count different found)
  bounded := h.fits
  room small other m := by
    apply (Py.Dict.contains_set _ _ _ _).mpr
    by_cases same : other = key
    · exact .inl same
    · rcases List.mem_append.mp m with before | last
      · exact .inr (h.room small other before same)
      · exact absurd (List.mem_singleton.mp last) same
  below other third count absent found := by
    simp only [TopKTracker.track, Py.Dict.get?_set] at absent found
    split at absent
    · cases absent
    · rename_i different
      rw [count_snoc, if_neg (Ne.symm different), Nat.add_zero]
      split at found
      · cases found
        exact h.under other different absent
      · exact h.below other third count different absent found

/-- A rebuilt heap holds the tracked counts. -/
theorem Follows.compactHeap (h : Follows hash k history t) : Follows hash k history t.compactHeap where
  capacity := h.capacity
  sketched := h.sketched
  counted := h.counted
  queued key count found := by
    apply Py.Heap.mem_heapify.mpr
    exact List.mem_map.mpr ⟨(key, count), Py.Dict.mem_entries.mpr found, rfl⟩
  bounded := h.bounded
  room := h.room
  below := h.below

/-- The entry of a tracked count is not stale, so it stays. -/
theorem Follows.discardStale (h : Follows hash k history t) :
    Follows hash k history t.discardStale where
  capacity := h.capacity
  sketched := h.sketched
  counted := h.counted
  queued key count found := by
    apply Py.Heap.mem_discardWhile (h.queued key count found)
    simp [stale, show t.tracked.get? key = some count from found]
  bounded := h.bounded
  room := h.room
  below := h.below

/-- Counting an access in the sketch lowers no estimate. -/
theorem Follows.increment (h : Follows hash k history t) (key : String) :
    Follows hash k history { t with sketch := t.sketch.increment hash key } where
  capacity := h.capacity
  sketched other := le_trans (h.sketched other) (t.sketch.estimate_increment hash key other)
  counted other count found :=
    ⟨(h.counted other count found).1,
      le_trans (h.counted other count found).2 (t.sketch.estimate_increment hash key other)⟩
  queued := h.queued
  bounded := h.bounded
  room := h.room
  below := h.below

theorem Follows.sketched_snoc (h : Follows hash k history t) (key other : String) :
    (history ++ [key]).count other ≤ (t.sketch.increment hash key).estimate hash other := by
  rw [count_snoc]
  split
  · rename_i same
    subst same
    have := h.sketched key
    have := t.sketch.estimate_increment_self hash key
    omega
  · exact le_trans (h.sketched other) (t.sketch.estimate_increment hash key other)

/-- The first entry of the heap, once it is not stale, is the least tracked count. -/
theorem Follows.first_le (h : Follows hash k history t) {least : ℕ ×ₗ String}
    (first : t.heap.first? = some least) {key : String} {count : Nat}
    (found : t.tracked.get? key = some count) : (ofLex least).1 ≤ count := by
  obtain ⟨rest, popped⟩ := Py.Heap.first?_eq_some.mp first
  have order := Py.Heap.heap_least popped (h.queued key count found)
  rcases Prod.Lex.le_iff.mp order with less | same
  · exact less.le
  · exact same.1.le

/-- An access to a tracked key. -/
theorem Follows.again (h : Follows hash k history t) {key : String} {count : Nat}
    (found : t.tracked.get? key = some count) :
    Awaits hash k history key { t with sketch := t.sketch.increment hash key } where
  capacity := h.capacity
  sketched := h.sketched_snoc key
  counted other count' _ found' := (h.increment key).counted other count' found'
  queued other count' _ found' := h.queued other count' found'
  fits := by
    rw [Py.Dict.size_set, if_pos (Py.Dict.contains_iff.mpr ⟨count, found⟩)]
    exact h.bounded
  room small other m _ := by
    rw [Py.Dict.size_set, if_pos (Py.Dict.contains_iff.mpr ⟨count, found⟩)] at small
    exact h.room small other m
  below other third count' _ absent found' := h.below other third count' absent found'
  under other _ absent := by
    have := h.below other key count absent found
    have := ((h.increment key).counted key count found).2
    exact le_trans ‹history.count other ≤ count› this

/-- An access to a new key while fewer than `k` are tracked: every other key that was accessed is
tracked. -/
theorem Follows.new (h : Follows hash k history t) {key : String}
    (absent : t.tracked.contains key = false) (small : t.tracked.size < k) :
    Awaits hash k history key { t with sketch := t.sketch.increment hash key } where
  capacity := h.capacity
  sketched := h.sketched_snoc key
  counted other count' _ found' := (h.increment key).counted other count' found'
  queued other count' _ found' := h.queued other count' found'
  fits := by
    rw [Py.Dict.size_set, if_neg (by rw [absent]; exact Bool.false_ne_true)]
    exact small
  room _ other m _ := h.room small other m
  below other third count' _ absent' found' := h.below other third count' absent' found'
  under other _ absent' := by
    have fresh : other ∉ history := fun m => by
      have := h.room small other m
      rw [Py.Dict.contains, absent'] at this
      cases this
    rw [List.count_eq_zero_of_not_mem fresh]
    exact Nat.zero_le _

/-- The least tracked key makes place for a key whose estimate is above its count. -/
theorem Follows.evict (h : Follows hash k history t) {key : String} {least : ℕ ×ₗ String}
    {rest : Py.Heap (ℕ ×ₗ String)} (full : k ≤ t.tracked.size) (absent : t.tracked.contains key = false)
    (popped : t.heap.heappop? = some (least, rest))
    (current : t.tracked.get? (ofLex least).2 = some (ofLex least).1)
    (sketched : ∀ other, (history ++ [key]).count other ≤ t.sketch.estimate hash other)
    (above : (ofLex least).1 < t.sketch.estimate hash key) :
    Awaits hash k history key { t with heap := rest, tracked := t.tracked.erase (ofLex least).2 } := by
  have first := Py.Heap.first?_eq_some.mpr ⟨rest, popped⟩
  have there : t.tracked.contains (ofLex least).2 = true := Py.Dict.contains_iff.mpr ⟨_, current⟩
  have size := Py.Dict.size_erase there
  have bounded := h.bounded
  have away : (t.tracked.erase (ofLex least).2).contains key = false := by
    unfold Py.Dict.contains at absent ⊢
    rw [Py.Dict.get?_erase]
    split
    · rfl
    · exact absent
  have grown : ((t.tracked.erase (ofLex least).2).set key (t.sketch.estimate hash key)).size = k := by
    rw [Py.Dict.size_set, if_neg (by rw [away]; exact Bool.false_ne_true)]
    omega
  have kept : ∀ {other : String} {count : Nat},
      (t.tracked.erase (ofLex least).2).get? other = some count →
      other ≠ (ofLex least).2 ∧ t.tracked.get? other = some count := by
    intro other count found
    rw [Py.Dict.get?_erase] at found
    split at found
    · cases found
    · exact ⟨‹_›, found⟩
  have lost : ∀ {other : String}, (t.tracked.erase (ofLex least).2).get? other = none →
      history.count other ≤ (ofLex least).1 := by
    intro other gone
    rw [Py.Dict.get?_erase] at gone
    split at gone
    · rename_i same
      rw [same]
      exact (h.counted _ _ current).1
    · exact h.below other _ _ gone current
  exact
    { capacity := h.capacity
      sketched := sketched
      counted := fun other count _ found => h.counted other count (kept found).2
      queued := by
        intro other count _ found
        rcases (Py.Heap.mem_of_heappop? popped _).mp (h.queued other count (kept found).2) with top | m
        · exact absurd (by rw [← top]; rfl) (kept found).1
        · exact m
      fits := grown.le
      room := fun small => absurd small (by rw [grown]; exact lt_irrefl k)
      below := fun other third count _ gone found =>
        le_trans (lost gone) (h.first_le first (kept found).2)
      under := fun other _ gone => le_trans (lost gone) above.le }

/-- An access to a key that stays out, since no tracked count is below its estimate. -/
theorem Follows.leave (h : Follows hash k history t) {key : String}
    (full : k ≤ t.tracked.size) (absent : t.tracked.contains key = false)
    (sketched : ∀ other, (history ++ [key]).count other ≤ t.sketch.estimate hash other)
    (least : ∀ other count, t.tracked.get? other = some count → t.sketch.estimate hash key ≤ count) :
    Follows hash k (history ++ [key]) t where
  capacity := h.capacity
  sketched := sketched
  counted other count found := by
    have different : key ≠ other := by
      rintro rfl
      rw [Py.Dict.contains, found] at absent
      cases absent
    rw [count_snoc, if_neg different]
    exact h.counted other count found
  queued := h.queued
  bounded := h.bounded
  room small := absurd full (not_le.mpr small)
  below other third count gone found := by
    by_cases same : other = key
    · subst same
      exact le_trans (sketched other) (least third count found)
    · rw [count_snoc, if_neg (Ne.symm same)]
      exact h.below other third count gone found

/-- One access. -/
theorem Follows.recorded {key : String} {t' : TopKTracker} (h : Follows hash k history t)
    (recorded : Recorded hash t key t') : Follows hash k (history ++ [key]) t' := by
  have cleaned := (h.increment key).discardStale
  cases recorded with
  | pushed there _ =>
    obtain ⟨count, found⟩ := Py.Dict.contains_iff.mp there
    exact (h.again found).track
  | compacted there _ =>
    obtain ⟨count, found⟩ := Py.Dict.contains_iff.mp there
    exact (h.again found).track.compactHeap
  | added absent room => exact (h.new absent (h.capacity ▸ room)).track
  | refused absent full below =>
    refine cleaned.leave (h.capacity ▸ full) absent (h.sketched_snoc key) fun other count found => ?_
    cases first : (t.incremented hash key).discardStale.heap.first? with
    | none => exact absurd (cleaned.queued other count found) (Py.Heap.first?_eq_none.mp first _)
    | some least => exact le_trans (below least first) (cleaned.first_le first found)
  | replaced absent full popped current above =>
    exact (cleaned.evict (h.capacity ▸ full) absent popped current (h.sketched_snoc key) above).track

/-- Any number of accesses. -/
theorem Follows.recordAll (h : Follows hash k history t) (keys : List String) :
    ∃ t', t.recordAll hash keys = some t' ∧ Follows hash k (history ++ keys) t' := by
  induction keys generalizing history t with
  | nil => exact ⟨t, rfl, by rw [List.append_nil]; exact h⟩
  | cons key keys ih =>
    obtain ⟨t₁, recorded, step⟩ := record_recorded hash t key
    obtain ⟨t₂, rest, final⟩ := ih (h.recorded step)
    refine ⟨t₂, ?_, by rw [List.append_cons]; exact final⟩
    simp only [TopKTracker.recordAll, List.foldlM_cons, recorded, Option.bind_eq_bind, Option.bind_some]
    exact rest

variable (hash) in
theorem init_follows (k : Nat) (sketch : CountMinSketch) : Follows hash k [] (init k sketch) where
  capacity := rfl
  sketched _ := Nat.zero_le _
  counted _ _ found := by cases found
  queued _ _ found := by cases found
  bounded := Nat.zero_le k
  room _ _ m := by cases m
  below _ _ _ _ found := by cases found

/-- The report of a tracker of capacity `k` after the accesses of `history`: at most `k` keys, none
with a count below its true one, no key left out that was accessed more often than some count in
the report says, and none left out at all while there is room. -/
structure Reported (k : Nat) (history : List String) (report : List (String × Nat)) : Prop where
  bounded : report.length ≤ k
  distinct : (report.map Prod.fst).Nodup
  counted : ∀ key count, (key, count) ∈ report → history.count key ≤ count
  missed : ∀ key, key ∉ report.map Prod.fst → ∀ other count, (other, count) ∈ report →
    history.count key ≤ count
  room : report.length < k → ∀ key ∈ history, key ∈ report.map Prod.fst

theorem mem_keys_topK (t : TopKTracker) (key : String) :
    key ∈ t.topK.map Prod.fst ↔ t.tracked.contains key = true := by
  rw [Py.Dict.contains_iff]
  simp only [← mem_topK, List.mem_map, Prod.exists, exists_and_right, exists_eq_right]

/-- No hot key is missed: whatever the hash and the accesses, recording raises nothing and the
report is right. -/
theorem hot_keys_reported (hash : Nat → String → Nat) (k width depth : Nat) (width_pos : 0 < width)
    (depth_pos : 0 < depth) (depth_le : depth ≤ 256) (history : List String) :
    ∃ t, (init k (.init width depth width_pos depth_pos depth_le)).recordAll hash history = some t ∧
      Reported k history t.topK := by
  obtain ⟨t, recorded, h⟩ :=
    (init_follows hash k (.init width depth width_pos depth_pos depth_le)).recordAll history
  refine ⟨t, recorded, ?_⟩
  exact
    { bounded := by rw [length_topK]; exact h.bounded
      distinct := ((List.perm_insertionSort _ _).map Prod.fst).nodup_iff.mpr t.tracked.nodup
      counted := fun key count m => (h.counted key count (mem_topK.mp m)).1
      missed := by
        intro key out other count m
        rw [mem_keys_topK, Py.Dict.contains, Option.isSome_iff_ne_none, not_not] at out
        exact h.below key other count out (mem_topK.mp m)
      room := by
        intro small key m
        rw [length_topK] at small
        exact (mem_keys_topK t key).mpr (h.room small key m) }

/-- With the code's hash and its default sizes. -/
theorem default_tracker_reports :
    ∃ t, (init 100 (.init 2048 4 (by omega) (by omega) (by omega))).recordAll
        CountMinSketch.sha256Row ["user:1", "user:2", "user:1"] = some t ∧
      Reported 100 ["user:1", "user:2", "user:1"] t.topK :=
  hot_keys_reported CountMinSketch.sha256Row 100 2048 4 (by omega) (by omega) (by omega) _

/-- One row of one counter: every access raises every estimate, and the key that comes last
displaces the other, with a count of all three accesses. -/
example : ((init 1 (.init 1 1 (by omega) (by omega) (by omega))).recordAll
    (fun _ _ => 0) ["a", "a", "b"]).map topK = some [("b", 3)] := by decide

end TopKTracker
end LiteStore
