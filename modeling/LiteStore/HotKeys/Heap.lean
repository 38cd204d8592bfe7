import LiteStore.HotKeys.TopK

/-!
# The lazily cleaned heap

A heap entry is current if its count is the one tracked for its key, and stale otherwise. Every
estimate of a key grows with its accesses and no entry of a key is above its estimate (`Lazy`), so a
newly pushed entry is not in the heap yet and a stale one never becomes current again
(`Outdated.record`). A tracked key therefore has one current entry, and the first entry that is not
stale is the least of them (`heap_lazily_cleaned`).

Only an access to a tracked key compacts the heap. What keeps it small otherwise is that the heap
grows with the number of tracked keys or not at all (`heap_bounded`).
-/

namespace LiteStore.TopKTracker
set_option autoImplicit false

variable {hash : Nat → String → Nat} {t t' : TopKTracker} {key : String}

/-- An access raises the sketch for its key and changes it in no other way. -/
theorem Recorded.sketch (h : Recorded hash t key t') : t'.sketch = t.sketch.increment hash key := by
  cases h <;> rfl

theorem Recorded.k (h : Recorded hash t key t') : t'.k = t.k := by
  cases h <;> rfl

/-- A count is new for the accessed key only, and it is the estimate then. -/
theorem Recorded.get? (h : Recorded hash t key t') {other : String} {count : Nat}
    (found : t'.tracked.get? other = some count) :
    other = key ∧ count = t'.sketch.estimate hash key ∨ t.tracked.get? other = some count := by
  have set {d : Py.Dict String Nat} (found : (d.set key (t.estimated hash key)).get? other = some count) :
      other = key ∧ count = t'.sketch.estimate hash key ∨ d.get? other = some count := by
    rw [Py.Dict.get?_set] at found
    split at found
    · cases found
      rw [h.sketch]
      exact .inl ⟨‹_›, rfl⟩
    · exact .inr found
  cases h with
  | pushed | compacted | added => exact set found
  | refused => exact .inr found
  | replaced =>
    refine (set found).imp_right fun kept => ?_
    rw [Py.Dict.get?_erase] at kept
    split at kept
    · cases kept
    · exact kept

/-! ## One current entry for each tracked key -/

variable (hash) in
/-- Each tracked key has one current entry, and no entry is above its key's estimate. -/
structure Lazy (t : TopKTracker) : Prop where
  once : ∀ key count, t.tracked.get? key = some count → t.heap.entries.count (toLex (count, key)) = 1
  reached : ∀ key count, toLex (count, key) ∈ t.heap → count ≤ t.sketch.estimate hash key

variable (hash) in
/-- The same of the keys other than `key`, whose estimate is above all its entries. -/
structure LazyBut (key : String) (t : TopKTracker) : Prop where
  once : ∀ other count, other ≠ key → t.tracked.get? other = some count →
    t.heap.entries.count (toLex (count, other)) = 1
  reached : ∀ other count, toLex (count, other) ∈ t.heap → count ≤ t.sketch.estimate hash other
  above : ∀ count, toLex (count, key) ∈ t.heap → count < t.sketch.estimate hash key

/-- The entry of a tracked count is in the heap. -/
theorem Lazy.mem (h : Lazy hash t) {count : Nat} (found : t.tracked.get? key = some count) :
    toLex (count, key) ∈ t.heap := by
  apply List.count_pos_iff.mp
  rw [h.once key count found]
  exact Nat.one_pos

/-- The entry pushed for the key is a new one. -/
theorem LazyBut.track (h : LazyBut hash key t) :
    Lazy hash (t.track key (t.sketch.estimate hash key)) where
  once other count found := by
    simp only [TopKTracker.track, Py.Dict.get?_set] at found ⊢
    rw [Py.Heap.count_heappush]
    split at found
    · rename_i same
      cases found
      subst same
      have fresh : t.heap.entries.count (toLex (t.sketch.estimate hash other, other)) = 0 :=
        List.count_eq_zero_of_not_mem fun m => lt_irrefl _ (h.above _ m)
      rw [fresh, if_pos rfl]
    · rename_i different
      have apart : toLex (t.sketch.estimate hash key, key) ≠ toLex (count, other) := fun same =>
        different (congrArg Prod.snd (toLex.injective same)).symm
      rw [if_neg apart, h.once other count different found]
  reached other count m := by
    rcases Py.Heap.mem_heappush.mp m with same | before
    · obtain ⟨rfl, rfl⟩ := Prod.mk.inj (toLex.injective same)
      exact le_refl _
    · exact h.reached other count before

theorem Lazy.incremented (h : Lazy hash t) (key : String) : Lazy hash (t.incremented hash key) where
  once := h.once
  reached other count m := le_trans (h.reached other count m) (t.sketch.estimate_increment hash key other)

/-- The access raises the estimate of its key above all entries of the key. -/
theorem Lazy.but (h : Lazy hash t) (key : String) : LazyBut hash key (t.incremented hash key) where
  once other count _ := h.once other count
  reached := (h.incremented key).reached
  above count m := by
    have := h.reached key count m
    have := t.sketch.estimate_increment_self hash key
    simp only [TopKTracker.incremented]
    omega

theorem not_stale {count : Nat} (found : t.tracked.get? key = some count) :
    t.stale (toLex (count, key)) = false := by
  simp [stale, found]

/-- Current entries are not discarded. -/
theorem Lazy.discardStale (h : Lazy hash t) : Lazy hash t.discardStale where
  once key count found := by
    have kept : t.stale (toLex (count, key)) = false := not_stale found
    have same := Py.Heap.count_discardWhile t.heap kept
    exact same.trans (h.once key count found)
  reached key count m := h.reached key count (Py.Heap.mem_of_mem_discardWhile m)

theorem Lazy.compactHeap (h : Lazy hash t) : Lazy hash t.compactHeap where
  once key count found := by
    have swapped : Function.Injective fun e : String × Nat => toLex (e.2, e.1) := by
      rintro ⟨k, n⟩ ⟨k', n'⟩ same
      cases toLex.injective same
      rfl
    have distinct : (t.tracked.entries.map fun e => toLex (e.2, e.1)).Nodup :=
      (List.Nodup.of_map Prod.fst t.tracked.nodup).map swapped
    have listed : toLex (count, key) ∈ t.tracked.entries.map fun e => toLex (e.2, e.1) :=
      List.mem_map.mpr ⟨(key, count), Py.Dict.mem_entries.mpr found, rfl⟩
    exact (Py.Heap.count_heapify _ _).trans (List.count_eq_one_of_mem distinct listed)
  reached key count m := by
    obtain ⟨⟨k, n⟩, listed, same⟩ := List.mem_map.mp (Py.Heap.mem_heapify.mp m)
    obtain ⟨rfl, rfl⟩ := Prod.mk.inj (toLex.injective same)
    exact h.reached k n (h.mem (Py.Dict.mem_entries.mp listed))

/-- What is left after the least entry and its key leave. -/
theorem LazyBut.evict (h : LazyBut hash key t) {least : ℕ ×ₗ String} {rest : Py.Heap (ℕ ×ₗ String)}
    (popped : t.heap.heappop? = some (least, rest)) :
    LazyBut hash key { t with heap := rest, tracked := t.tracked.erase (ofLex least).2 } where
  once other count different found := by
    rw [Py.Dict.get?_erase] at found
    split at found
    · cases found
    · rename_i apart
      have : toLex (count, other) ≠ least := by
        rintro rfl
        exact apart rfl
      exact (Py.Heap.count_of_heappop? popped this).trans (h.once other count different found)
  reached other count m := h.reached other count ((Py.Heap.mem_of_heappop? popped _).mpr (.inr m))
  above count m := h.above count ((Py.Heap.mem_of_heappop? popped _).mpr (.inr m))

/-- One access. -/
theorem Lazy.record (h : Lazy hash t) (recorded : Recorded hash t key t') : Lazy hash t' := by
  have tracked : Lazy hash ((t.incremented hash key).track key (t.estimated hash key)) := (h.but key).track
  cases recorded with
  | pushed => exact tracked
  | compacted => exact tracked.compactHeap
  | added => exact tracked
  | refused => exact (h.incremented key).discardStale
  | replaced absent full popped current above =>
    have cleaned : LazyBut hash key (t.incremented hash key).discardStale :=
      { once := fun other count _ => (h.incremented key).discardStale.once other count
        reached := (h.incremented key).discardStale.reached
        above := fun count m => (h.but key).above count (Py.Heap.mem_of_mem_discardWhile m) }
    exact (cleaned.evict popped).track

theorem Lazy.recordAll (h : Lazy hash t) {keys : List String} (recorded : t.recordAll hash keys = some t') :
    Lazy hash t' := by
  induction keys generalizing t with
  | nil =>
    cases recorded
    exact h
  | cons key keys ih =>
    obtain ⟨t₁, first, rest⟩ := Option.bind_eq_some_iff.mp recorded
    exact ih (h.record (recorded_of_record first)) rest

variable (hash) in
theorem init_lazy (k : Nat) (sketch : CountMinSketch) : Lazy hash (init k sketch) where
  once key count found := by cases found
  reached key count m := by cases m

/-! ## Stale entries -/

variable (hash) in
/-- A count that the key has passed and is not tracked with. -/
def Outdated (count : Nat) (key : String) (t : TopKTracker) : Prop :=
  count ≤ t.sketch.estimate hash key ∧ t.tracked.get? key ≠ some count

/-- A key that is accessed again is tracked with a greater count, if at all. -/
theorem Outdated.record {count : Nat} {other : String} (h : Outdated hash count other t)
    (recorded : Recorded hash t key t') : Outdated hash count other t' := by
  obtain ⟨passed, apart⟩ := h
  rw [Outdated, recorded.sketch]
  refine ⟨le_trans passed (t.sketch.estimate_increment hash key other), fun found => ?_⟩
  rcases recorded.get? found with ⟨rfl, same⟩ | before
  · have raised := t.sketch.estimate_increment_self hash other
    rw [recorded.sketch] at same
    omega
  · exact apart before

/-- A stale entry never becomes current again. -/
theorem Outdated.recordAll {count : Nat} {other : String} (h : Outdated hash count other t)
    {keys : List String} (recorded : t.recordAll hash keys = some t') : Outdated hash count other t' := by
  induction keys generalizing t with
  | nil =>
    cases recorded
    exact h
  | cons key keys ih =>
    obtain ⟨t₁, first, rest⟩ := Option.bind_eq_some_iff.mp recorded
    exact ih (h.record (recorded_of_record first)) rest

/-! ## The least tracked key -/

/-- The entries that the tracked keys have. -/
def current (t : TopKTracker) : Set (ℕ ×ₗ String) :=
  {entry | t.tracked.get? (ofLex entry).2 = some (ofLex entry).1}

/-- An entry that `_peek_min` answers is current, and no current entry is less. -/
theorem Lazy.peekMin_isLeast (h : Lazy hash t) {least : ℕ ×ₗ String} (first : t.peekMin.1 = some least) :
    IsLeast t.current least := by
  refine ⟨get?_of_peekMin first, fun entry found => ?_⟩
  obtain ⟨rest, popped⟩ := Py.Heap.first?_eq_some.mp first
  exact Py.Heap.heap_least popped (h.discardStale.mem found)

/-- `_peek_min` answers the least current entry. -/
theorem Lazy.peekMin_eq_some (h : Lazy hash t) {least : ℕ ×ₗ String} :
    t.peekMin.1 = some least ↔ IsLeast t.current least := by
  refine ⟨h.peekMin_isLeast, fun here => ?_⟩
  cases first : t.peekMin.1 with
  | none => exact absurd (h.discardStale.mem here.1) (Py.Heap.first?_eq_none.mp first _)
  | some entry => rw [(h.peekMin_isLeast first).unique here]

theorem Lazy.peekMin_eq_none (h : Lazy hash t) :
    t.peekMin.1 = none ↔ ∀ key, t.tracked.contains key = false := by
  constructor
  · intro none key
    apply Bool.eq_false_iff.mpr
    intro there
    obtain ⟨count, found⟩ := Py.Dict.contains_iff.mp there
    exact Py.Heap.first?_eq_none.mp none _ (h.discardStale.mem found)
  · intro untracked
    cases first : t.peekMin.1 with
    | none => rfl
    | some least =>
      have there := Py.Dict.contains_iff.mpr ⟨_, (h.peekMin_isLeast first).1⟩
      rw [untracked] at there
      cases there

/-- What `_peek_min` answers is popped next, and its key is no longer tracked. -/
theorem Lazy.evict_peekMin (h : Lazy hash t) {least : ℕ ×ₗ String} (first : t.peekMin.1 = some least) :
    ∃ rest, t.peekMin.2.heap.heappop? = some (least, rest) ∧
      t.peekMin.2.evict =
        some { t.peekMin.2 with heap := rest, tracked := t.tracked.erase (ofLex least).2 } := by
  obtain ⟨rest, popped⟩ := Py.Heap.first?_eq_some.mp first
  exact ⟨rest, popped, evict_popped (t := t.discardStale) popped (h.peekMin_isLeast first).1⟩

/-- The only key that an access stops tracking is the least one. -/
theorem Lazy.dropped (h : Lazy hash t) (recorded : Recorded hash t key t') {other : String} {count : Nat}
    (before : t.tracked.get? other = some count) (after : t'.tracked.get? other = none) :
    IsLeast t.current (toLex (count, other)) := by
  have set {d : Py.Dict String Nat} (gone : (d.set key (t.estimated hash key)).get? other = none) :
      d.get? other = none := by
    rw [Py.Dict.get?_set] at gone
    split at gone
    · cases gone
    · exact gone
  cases recorded with
  | pushed | compacted | added => cases before.symm.trans (set after)
  | refused => cases before.symm.trans after
  | replaced absent full popped current above =>
    rename_i least rest
    have gone : (t.tracked.erase (ofLex least).2).get? other = none := set after
    rw [Py.Dict.get?_erase] at gone
    split at gone
    · rename_i same
      subst same
      have counts := Option.some.inj (current.symm.trans before)
      have entry : toLex (count, (ofLex least).2) = least := by rw [← counts]; rfl
      rw [entry]
      exact (h.incremented key).peekMin_isLeast (Py.Heap.first?_eq_some.mpr ⟨rest, popped⟩)
    · cases before.symm.trans gone

variable (hash) in
/-- The heap of a tracker and what is read off it. -/
structure LazilyCleaned (t : TopKTracker) : Prop where
  /-- A tracked key has exactly one current entry. -/
  once : ∀ key count, t.tracked.get? key = some count → t.heap.entries.count (toLex (count, key)) = 1
  /-- Any other entry is stale, and stays so whatever is recorded. -/
  stale : ∀ key count, toLex (count, key) ∈ t.heap → t.tracked.get? key ≠ some count →
    ∀ keys t', t.recordAll hash keys = some t' → t'.tracked.get? key ≠ some count
  peeked : ∀ least, t.peekMin.1 = some least ↔ IsLeast t.current least
  empty : t.peekMin.1 = none ↔ ∀ key, t.tracked.contains key = false
  popped : ∀ least, t.peekMin.1 = some least → ∃ rest, t.peekMin.2.heap.heappop? = some (least, rest) ∧
    t.peekMin.2.evict = some { t.peekMin.2 with heap := rest, tracked := t.tracked.erase (ofLex least).2 }
  dropped : ∀ key t', t.record hash key = some t' → ∀ other count, t.tracked.get? other = some count →
    t'.tracked.get? other = none → IsLeast t.current (toLex (count, other))

/-- **Lazy deletion.** In every tracker that accesses reach, whatever the hash and the sizes. -/
theorem heap_lazily_cleaned (hash : Nat → String → Nat) (k width depth : Nat) (width_pos : 0 < width)
    (depth_pos : 0 < depth) (depth_le : depth ≤ 256) (history : List String) :
    ∃ t, (init k (.init width depth width_pos depth_pos depth_le)).recordAll hash history = some t ∧
      LazilyCleaned hash t := by
  obtain ⟨t, recorded, _⟩ :=
    (init_follows hash k (.init width depth width_pos depth_pos depth_le)).recordAll history
  have h := (init_lazy hash k (.init width depth width_pos depth_pos depth_le)).recordAll recorded
  refine ⟨t, recorded, h.once, ?_, fun least => h.peekMin_eq_some, h.peekMin_eq_none,
    fun least => h.evict_peekMin, ?_⟩
  · intro key count m apart keys t' later
    have outdated : Outdated hash count key t := ⟨h.reached key count m, apart⟩
    exact (outdated.recordAll later).2
  · intro key t' later other count
    exact h.dropped (recorded_of_record later)

/-- Keys that come and go, hashed as the code does. -/
theorem readmitted_key_lazily_cleaned :
    ∃ t, (init 2 (.init 2048 4 (by decide) (by decide) (by decide))).recordAll
        CountMinSketch.sha256Row ["a", "b", "c", "c", "b", "b", "a", "a", "a", "a"] = some t ∧
      LazilyCleaned CountMinSketch.sha256Row t :=
  heap_lazily_cleaned CountMinSketch.sha256Row 2 2048 4 (by decide) (by decide) (by decide) _

/-! ## The size of the heap -/

/-- What an access adds to the heap is paid for by a key that is newly tracked, or by a compaction. -/
theorem Recorded.heap_le (h : Recorded hash t key t')
    (small : t.heap.size ≤ t.k * heapCleanupRatio + t.tracked.size) :
    t'.heap.size ≤ t'.k * heapCleanupRatio + t'.tracked.size := by
  have discarded := Py.Heap.size_discardWhile_le t.heap (t.incremented hash key).stale
  rw [h.k]
  cases h with
  | pushed there fits => exact le_trans fits (Nat.le_add_right _ _)
  | compacted there large =>
    have rebuilt := Py.Heap.size_heapify
      ((t.tracked.set key (t.estimated hash key)).entries.map fun e => toLex (e.2, e.1))
    rw [List.length_map] at rebuilt
    exact le_trans rebuilt.le (Nat.le_add_left _ _)
  | added absent room =>
    have pushed := Py.Heap.size_heappush t.heap (toLex (t.estimated hash key, key))
    have grown := Py.Dict.size_set t.tracked key (t.estimated hash key)
    rw [absent, if_neg Bool.false_ne_true] at grown
    simp only [track, incremented]
    omega
  | refused => exact le_trans discarded small
  | replaced absent full popped current above =>
    rename_i least rest
    have pushed := Py.Heap.size_heappush rest (toLex (t.estimated hash key, key))
    have shrunk : rest.size + 1 = (t.heap.discardWhile (t.incremented hash key).stale).size :=
      Py.Heap.size_of_heappop? popped
    have erased := Py.Dict.size_erase (Py.Dict.contains_iff.mpr ⟨_, current⟩)
    have away : (t.tracked.erase (ofLex least).2).contains key = false := by
      unfold Py.Dict.contains at absent ⊢
      rw [Py.Dict.get?_erase]
      split
      · rfl
      · exact absent
    have grown := Py.Dict.size_set (t.tracked.erase (ofLex least).2) key (t.estimated hash key)
    rw [away, if_neg Bool.false_ne_true] at grown
    simp only [track, incremented]
    omega

theorem recordAll_heap_le (small : t.heap.size ≤ t.k * heapCleanupRatio + t.tracked.size)
    {keys : List String} (recorded : t.recordAll hash keys = some t') :
    t'.heap.size ≤ t'.k * heapCleanupRatio + t'.tracked.size := by
  induction keys generalizing t with
  | nil =>
    cases recorded
    exact small
  | cons key keys ih =>
    obtain ⟨t₁, first, rest⟩ := Option.bind_eq_some_iff.mp recorded
    exact ih ((recorded_of_record first).heap_le small) rest

/-- **The heap stays small.** After any accesses it has at most four entries for each of the `k` places. -/
theorem heap_bounded (hash : Nat → String → Nat) (k width depth : Nat) (width_pos : 0 < width)
    (depth_pos : 0 < depth) (depth_le : depth ≤ 256) (history : List String) :
    ∃ t, (init k (.init width depth width_pos depth_pos depth_le)).recordAll hash history = some t ∧
      t.heap.size ≤ 4 * k := by
  obtain ⟨t, recorded, h⟩ :=
    (init_follows hash k (.init width depth width_pos depth_pos depth_le)).recordAll history
  have small := recordAll_heap_le (Nat.zero_le _) recorded
  have bounded := h.bounded
  rw [h.capacity, heapCleanupRatio] at small
  exact ⟨t, recorded, by omega⟩

/-- A compaction, after which other keys are added. -/
theorem compacted_heap_bounded :
    ∃ t, (init 2 (.init 2048 4 (by decide) (by decide) (by decide))).recordAll
        CountMinSketch.sha256Row ["a", "a", "a", "a", "a", "a", "b", "c"] = some t ∧
      t.heap.size ≤ 4 * 2 :=
  heap_bounded CountMinSketch.sha256Row 2 2048 4 (by decide) (by decide) (by decide) _

/-- One entry less is the most there is. -/
example : ((init 2 (.init 1 1 (by decide) (by decide) (by decide))).recordAll (fun _ _ => 0)
    ["a", "a", "a", "a", "a", "a", "b"]).map (fun t => t.heap.size) = some (4 * 2 - 1) := by decide

end LiteStore.TopKTracker
