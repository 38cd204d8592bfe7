import Mathlib.Data.List.Sort
import Mathlib.Data.List.TakeWhile

/-!
# `heapq`

Of a heap a program reads its length, its first entry, which is the least one, and what
`heappop` takes off, which is that same entry. A `Heap` is its entries from the least one
upwards, with the proof that they are in order; the places `heapq` gives the later entries in
its list are read by nobody.

`heap_least` and `mem_discardWhile` are what the callers of a lazily cleaned heap need: popping
stale entries loses no live one, and the first live one is then the least of all.
-/

namespace Py
set_option autoImplicit false

/-- A list that `heapq` keeps as a heap. -/
structure Heap (α : Type) [LinearOrder α] where
  entries : List α
  ordered : entries.Pairwise (· ≤ ·)

namespace Heap
variable {α : Type} [LinearOrder α]

instance : Membership α (Heap α) := ⟨fun heap a => a ∈ heap.entries⟩

theorem mem_def {heap : Heap α} {a : α} : a ∈ heap ↔ a ∈ heap.entries := Iff.rfl

/-- `[]`. -/
def empty : Heap α := ⟨[], List.Pairwise.nil⟩

/-- `len(heap)`. -/
def size (heap : Heap α) : Nat := heap.entries.length

/-- `heapq.heappush(heap, a)`. -/
def heappush (heap : Heap α) (a : α) : Heap α :=
  ⟨heap.entries.orderedInsert (· ≤ ·) a, heap.ordered.orderedInsert a⟩

/-- `heapq.heapify(entries)`. -/
def heapify (entries : List α) : Heap α :=
  ⟨entries.insertionSort (· ≤ ·), List.pairwise_insertionSort (· ≤ ·) entries⟩

/-- `heapq.heappop(heap)`: the least entry and the rest; `none` is its `IndexError`. -/
def heappop? (heap : Heap α) : Option (α × Heap α) :=
  match heap with
  | ⟨[], _⟩ => none
  | ⟨a :: rest, ordered⟩ => some (a, ⟨rest, ordered.of_cons⟩)

/-- `heap[0]`; `none` for an empty heap. -/
def first? (heap : Heap α) : Option α := heap.entries.head?

/-- `while heap and p(heap[0]): heapq.heappop(heap)`. -/
def discardWhile (heap : Heap α) (p : α → Bool) : Heap α :=
  ⟨heap.entries.dropWhile p, heap.ordered.sublist (List.dropWhile_sublist p)⟩

@[simp] theorem mem_heappush {heap : Heap α} {a b : α} : b ∈ heap.heappush a ↔ b = a ∨ b ∈ heap :=
  List.mem_orderedInsert (· ≤ ·)

@[simp] theorem mem_heapify {entries : List α} {a : α} : a ∈ heapify entries ↔ a ∈ entries :=
  List.mem_insertionSort (· ≤ ·)

theorem first?_eq_some {heap : Heap α} {a : α} :
    heap.first? = some a ↔ ∃ rest, heap.heappop? = some (a, rest) := by
  obtain ⟨entries, ordered⟩ := heap
  cases entries <;> simp [first?, heappop?]

theorem first?_eq_none {heap : Heap α} : heap.first? = none ↔ ∀ a, a ∉ heap := by
  rw [first?, List.head?_eq_none_iff, List.eq_nil_iff_forall_not_mem]
  rfl

/-- What is popped and what stays were all of the heap. -/
theorem mem_of_heappop? {heap rest : Heap α} {a : α} (h : heap.heappop? = some (a, rest)) (b : α) :
    b ∈ heap ↔ b = a ∨ b ∈ rest := by
  obtain ⟨entries, ordered⟩ := heap
  cases entries with
  | nil => cases h
  | cons c tail =>
    obtain ⟨rfl, rfl⟩ := Prod.mk.inj (Option.some.inj h)
    exact List.mem_cons

/-- The popped entry is the least. -/
theorem heap_least {heap rest : Heap α} {a : α} (h : heap.heappop? = some (a, rest)) {b : α}
    (m : b ∈ heap) : a ≤ b := by
  rcases (mem_of_heappop? h b).mp m with rfl | m
  · exact le_refl b
  · obtain ⟨entries, ordered⟩ := heap
    cases entries with
    | nil => cases h
    | cons c tail =>
      obtain ⟨rfl, rfl⟩ := Prod.mk.inj (Option.some.inj h)
      exact List.rel_of_pairwise_cons ordered m

/-- Only entries that `p` holds of are discarded. -/
theorem mem_discardWhile {heap : Heap α} {p : α → Bool} {a : α} (m : a ∈ heap) (keep : p a = false) :
    a ∈ heap.discardWhile p := by
  have m : a ∈ heap.entries.takeWhile p ++ heap.entries.dropWhile p := by
    rw [List.takeWhile_append_dropWhile]
    exact m
  rcases List.mem_append.mp m with gone | kept
  · rw [List.mem_takeWhile_imp gone] at keep
    cases keep
  · exact kept

theorem mem_of_mem_discardWhile {heap : Heap α} {p : α → Bool} {a : α} (m : a ∈ heap.discardWhile p) :
    a ∈ heap := (List.dropWhile_sublist p).subset m

/-- Discarding stops at an entry that `p` does not hold of. -/
theorem first?_discardWhile {heap : Heap α} {p : α → Bool} {a : α}
    (h : (heap.discardWhile p).first? = some a) : p a = false := by
  have := List.head?_dropWhile_not p heap.entries
  rw [show (heap.entries.dropWhile p).head? = some a from h] at this
  simpa using this

/-! ## How often an entry stands in a heap -/

section Count

variable [BEq α] [LawfulBEq α]

theorem count_heappush (heap : Heap α) (a b : α) :
    (heap.heappush a).entries.count b = heap.entries.count b + if a = b then 1 else 0 := by
  have same := (List.perm_orderedInsert (· ≤ ·) a heap.entries).count_eq b
  rw [List.count_cons] at same
  simpa [heappush] using same

omit [LawfulBEq α] in
theorem count_heapify (entries : List α) (a : α) : (heapify entries).entries.count a = entries.count a :=
  (List.perm_insertionSort (· ≤ ·) entries).count_eq a

theorem count_of_heappop? {heap rest : Heap α} {a b : α} (h : heap.heappop? = some (a, rest))
    (other : b ≠ a) : rest.entries.count b = heap.entries.count b := by
  obtain ⟨entries, ordered⟩ := heap
  cases entries with
  | nil => cases h
  | cons c tail =>
    obtain ⟨rfl, rfl⟩ := Prod.mk.inj (Option.some.inj h)
    exact (List.count_cons_of_ne (Ne.symm other)).symm

/-- No entry that is kept is discarded. -/
theorem count_discardWhile (heap : Heap α) {p : α → Bool} {a : α} (keep : p a = false) :
    (heap.discardWhile p).entries.count a = heap.entries.count a := by
  have gone : (heap.entries.takeWhile p).count a = 0 := by
    apply List.count_eq_zero_of_not_mem
    intro m
    rw [List.mem_takeWhile_imp m] at keep
    cases keep
  have split := congrArg (List.count a) (List.takeWhile_append_dropWhile (p := p) (l := heap.entries))
  rw [List.count_append, gone, Nat.zero_add] at split
  exact split

end Count

/-! ## Sizes -/

theorem size_heappush (heap : Heap α) (a : α) : (heap.heappush a).size = heap.size + 1 :=
  List.orderedInsert_length (· ≤ ·) heap.entries a

theorem size_heapify (entries : List α) : (heapify entries).size = entries.length :=
  List.length_insertionSort (· ≤ ·) entries

theorem size_of_heappop? {heap rest : Heap α} {a : α} (h : heap.heappop? = some (a, rest)) :
    rest.size + 1 = heap.size := by
  obtain ⟨entries, ordered⟩ := heap
  cases entries with
  | nil => cases h
  | cons c tail =>
    obtain ⟨rfl, rfl⟩ := Prod.mk.inj (Option.some.inj h)
    rfl

theorem size_discardWhile_le (heap : Heap α) (p : α → Bool) : (heap.discardWhile p).size ≤ heap.size :=
  (List.dropWhile_sublist p).length_le

end Heap
end Py
