import LiteStore.Py.Sha256
import Mathlib.Data.List.OfFn
import Mathlib.Order.Bounds.Basic

/-!
# The Count-Min sketch

A sketch of `depth` rows of `width` counters each. Every row hashes a key to one of its
counters, an access adds one to the key's counter in every row, and the estimate is the least
of the key's counters. The hash is a parameter, which the code's own `sha256Row` instantiates.

An access raises the estimate of its own key by at least one (`estimate_increment_self`) and
lowers no other (`estimate_increment`). Every counter holds the accesses to all keys of its column
(`counter_incrementAll`), so the estimate is the true count but for collisions (`estimate_exact`).
-/

namespace LiteStore
set_option autoImplicit false

/-- The table of counters. A row's number is one byte of what is hashed. -/
structure CountMinSketch where
  width : Nat
  depth : Nat
  width_pos : 0 < width
  depth_pos : 0 < depth
  depth_le : depth ≤ 256
  table : Vector (Vector Nat width) depth

namespace CountMinSketch

/-- The first four bytes of `hashlib.sha256(bytes([seed]) + key_bytes).digest()` as a number. -/
def sha256Row (seed : Nat) (key : String) : Nat :=
  (Py.Sha256.digest (UInt8.ofNat seed :: key.toList.flatMap String.utf8EncodeChar)).a.toNat

/-- `CountMinSketch(width, depth)`. -/
def init (width depth : Nat) (width_pos : 0 < width) (depth_pos : 0 < depth) (depth_le : depth ≤ 256) :
    CountMinSketch where
  width
  depth
  width_pos
  depth_pos
  depth_le
  table := Vector.replicate depth (Vector.replicate width 0)

variable (hash : Nat → String → Nat)

/-- `_hash(key_bytes, seed)`: the key's column in the row `seed`. -/
def column (s : CountMinSketch) (key : String) (seed : Fin s.depth) : Fin s.width :=
  ⟨hash seed key % s.width, Nat.mod_lt _ s.width_pos⟩

/-- `self._table[row][self._hash(key_bytes, row)]`. -/
def counter (s : CountMinSketch) (key : String) (row : Fin s.depth) : Nat :=
  s.table[row][s.column hash key row]

/-- Increment the count of a key across all rows. -/
def increment (s : CountMinSketch) (key : String) : CountMinSketch :=
  { s with
    table := Vector.ofFn fun row =>
      let col := s.column hash key row
      s.table[row].set col (s.table[row][col] + 1) col.isLt }

/-- The minimum count across all rows. -/
def estimate (s : CountMinSketch) (key : String) : Nat :=
  (List.ofFn fun row => s.counter hash key row).min
    (by
      intro none
      have := List.ofFn_eq_nil_iff.mp none
      have := s.depth_pos
      omega)

theorem le_estimate_iff {s : CountMinSketch} {key : String} {n : Nat} :
    n ≤ s.estimate hash key ↔ ∀ row, n ≤ s.counter hash key row := by
  rw [estimate, List.le_min_iff]
  exact List.forall_mem_ofFn_iff

/-- An access adds one to the counters of its key, which other keys share. -/
theorem counter_increment (s : CountMinSketch) (key key' : String) (row : Fin s.depth) :
    (s.increment hash key).counter hash key' row = s.counter hash key' row +
      if s.column hash key' row = s.column hash key row then 1 else 0 := by
  unfold counter increment
  simp only [Fin.getElem_fin, Vector.getElem_ofFn]
  change (Vector.set _ _ _ _)[(s.column hash key' row).val] = _
  rw [Vector.getElem_set]
  by_cases h : s.column hash key' row = s.column hash key row
  · simp [h]
  · have : (s.column hash key row).val ≠ (s.column hash key' row).val := fun e => h (Fin.ext e.symm)
    simp [h, this]

theorem estimate_increment (s : CountMinSketch) (key key' : String) :
    s.estimate hash key' ≤ (s.increment hash key).estimate hash key' := by
  rw [le_estimate_iff]
  intro row
  have := (le_estimate_iff hash).mp (le_refl (s.estimate hash key')) row
  have := s.counter_increment hash key key' row
  omega

theorem estimate_increment_self (s : CountMinSketch) (key : String) :
    s.estimate hash key + 1 ≤ (s.increment hash key).estimate hash key := by
  rw [le_estimate_iff]
  intro row
  have := (le_estimate_iff hash).mp (le_refl (s.estimate hash key)) row
  have := s.counter_increment hash key key row
  rw [if_pos rfl] at this
  omega

/-! ## Any number of accesses -/

/-- `increment` of one key after the other. -/
def incrementAll (s : CountMinSketch) (keys : List String) : CountMinSketch :=
  keys.foldl (increment hash) s

/-- The accesses to keys in the column of `key` in the row `row`. -/
def load (width : Nat) (keys : List String) (key : String) (row : Nat) : Nat :=
  keys.countP fun other => hash row other % width = hash row key % width

theorem incrementAll_depth (s : CountMinSketch) (keys : List String) :
    (s.incrementAll hash keys).depth = s.depth := by
  induction keys generalizing s with
  | nil => rfl
  | cons key keys ih => exact ih (s.increment hash key)

theorem counter_init (width depth : Nat) (width_pos depth_pos depth_le) (key : String)
    (row : Fin (init width depth width_pos depth_pos depth_le).depth) :
    (init width depth width_pos depth_pos depth_le).counter hash key row = 0 := by
  have rows (r : Fin depth) :
      (Vector.replicate depth (Vector.replicate width 0))[r] = Vector.replicate width 0 := by simp
  have cells (c : Fin width) : (Vector.replicate width 0)[c] = 0 := by simp
  exact (congrArg (fun v : Vector Nat width => v[column hash (init width depth _ _ _) key row])
    (rows row)).trans (cells (column hash (init width depth _ _ _) key row))

/-- A counter grows by the accesses to the keys of its column. -/
theorem counter_incrementAll (s : CountMinSketch) (keys : List String) (key : String)
    (row : Fin (s.incrementAll hash keys).depth) :
    (s.incrementAll hash keys).counter hash key row =
      s.counter hash key (row.cast (incrementAll_depth hash s keys)) + load hash s.width keys key row := by
  induction keys generalizing s with
  | nil => rfl
  | cons first keys ih =>
    set old := row.cast (incrementAll_depth hash s (first :: keys)) with hold
    have rest : (s.incrementAll hash (first :: keys)).counter hash key row =
        (s.increment hash first).counter hash key old + load hash s.width keys key row :=
      ih (s.increment hash first) row
    have step := s.counter_increment hash first key old
    have more : load hash s.width (first :: keys) key row =
        load hash s.width keys key row + if s.column hash key old = s.column hash first old then 1 else 0 := by
      simp only [load, List.countP_cons, column, Fin.mk.injEq, hold, Fin.val_cast, decide_eq_true_eq]
      simp only [eq_comm]
    rw [more]
    refine (rest.trans (congrArg (· + _) step)).trans ?_
    omega

/-- The estimate is the least counter. -/
theorem estimate_isLeast (s : CountMinSketch) (key : String) :
    IsLeast (Set.range fun row => s.counter hash key row) (s.estimate hash key) := by
  refine ⟨?_, ?_⟩
  · have nonempty : List.ofFn (fun row => s.counter hash key row) ≠ [] := by
      intro none
      have := List.ofFn_eq_nil_iff.mp none
      have := s.depth_pos
      omega
    exact List.mem_ofFn.mp (List.min_mem nonempty)
  · rintro _ ⟨row, rfl⟩
    exact (le_estimate_iff hash).mp (le_refl _) row

theorem count_le_load (width : Nat) (keys : List String) (key : String) (row : Nat) :
    keys.count key ≤ load hash width keys key row := by
  refine List.countP_mono_left fun other _ same => ?_
  simp [beq_iff_eq.mp same]

theorem load_eq_count {width : Nat} {keys : List String} {key : String} {row : Nat}
    (alone : ∀ other ∈ keys, hash row other % width = hash row key % width → other = key) :
    load hash width keys key row = keys.count key := by
  refine List.countP_congr fun other m => ?_
  simp only [decide_eq_true_eq, beq_iff_eq]
  exact ⟨alone other m, fun same => by rw [same]⟩

/-- On a new sketch the counters are the loads of their columns. -/
theorem estimate_load (width depth : Nat) (width_pos depth_pos depth_le) (keys : List String) (key : String) :
    IsLeast (Set.range fun row : Fin depth => load hash width keys key row)
      (((init width depth width_pos depth_pos depth_le).incrementAll hash keys).estimate hash key) := by
  set s := init width depth width_pos depth_pos depth_le
  have rows := incrementAll_depth hash s keys
  have zero : ∀ row, s.counter hash key row = 0 := counter_init hash width depth _ _ _ key
  obtain ⟨⟨row, attained⟩, below⟩ := (s.incrementAll hash keys).estimate_isLeast hash key
  refine ⟨⟨row.cast rows, ?_⟩, ?_⟩
  · rw [← attained]
    simp only [counter_incrementAll, zero, Nat.zero_add]
    rfl
  · rintro _ ⟨row, rfl⟩
    have bound := below ⟨row.cast rows.symm, rfl⟩
    simp only [counter_incrementAll, zero, Nat.zero_add] at bound
    exact bound

/-- **The estimate is exact up to collisions.** Whatever the hash and the accesses to a new sketch: the
estimate of a key is the least over the rows of the accesses to all keys of its column; so it is
not below the key's count, not above the number of accesses, and the key's count if some row has
no other accessed key in its column. -/
theorem estimate_exact (hash : Nat → String → Nat) (width depth : Nat) (width_pos : 0 < width)
    (depth_pos : 0 < depth) (depth_le : depth ≤ 256) (keys : List String) (key : String) :
    let estimate := ((init width depth width_pos depth_pos depth_le).incrementAll hash keys).estimate hash key
    IsLeast (Set.range fun row : Fin depth => load hash width keys key row) estimate ∧
      keys.count key ≤ estimate ∧ estimate ≤ keys.length ∧
      ((∃ row : Fin depth, ∀ other ∈ keys,
        hash row other % width = hash row key % width → other = key) → estimate = keys.count key) := by
  intro estimate
  obtain ⟨⟨row, attained⟩, below⟩ : IsLeast _ estimate :=
    estimate_load hash width depth width_pos depth_pos depth_le keys key
  refine ⟨⟨⟨row, attained⟩, below⟩, ?_, ?_, ?_⟩
  · rw [← attained]
    exact count_le_load hash width keys key row
  · rw [← attained]
    exact List.countP_le_length
  · rintro ⟨row, alone⟩
    refine le_antisymm ?_ ?_
    · have bound := below ⟨row, rfl⟩
      dsimp only at bound
      rwa [load_eq_count hash alone] at bound
    · rw [← attained]
      exact count_le_load hash width keys key _

/-- Two rows of two columns: `a` and `b` meet in the first row only. -/
theorem met_once_exact :
    let hash (row : Nat) (key : String) : Nat := if row = 1 ∧ key = "b" then 1 else 0
    let estimate := ((init 2 2 (by decide) (by decide) (by decide)).incrementAll hash ["a", "b", "a"]).estimate
      hash "a"
    IsLeast (Set.range fun row : Fin 2 => load hash 2 ["a", "b", "a"] "a" row) estimate ∧
      ["a", "b", "a"].count "a" ≤ estimate ∧ estimate ≤ ["a", "b", "a"].length ∧
      ((∃ row : Fin 2, ∀ other ∈ ["a", "b", "a"], hash row other % 2 = hash row "a" % 2 → other = "a") →
        estimate = ["a", "b", "a"].count "a") :=
  estimate_exact (fun row key => if row = 1 ∧ key = "b" then 1 else 0) 2 2 (by decide) (by decide)
    (by decide) ["a", "b", "a"] "a"

end CountMinSketch
end LiteStore
