import Mathlib.Data.List.Nodup

/-!
# Insertion-ordered dictionaries and sets

A Python `dict` keeps its entries in insertion order: assigning to a key that
is present replaces the value in place, a new key goes to the end, and deleting
a key leaves the order of the others. `Dict` is that list of entries with the
proof that no key occurs twice, and every later fact is stated through `get?`.

Python leaves the iteration order of a `set` open. `OrdSet` iterates in the order
of insertion; its facts speak of membership only.
-/

namespace Py
set_option autoImplicit false

/-- A Python `dict`: the entries in insertion order, each key once. -/
structure Dict (κ ν : Type) where
  entries : List (κ × ν)
  nodup : (entries.map Prod.fst).Nodup
deriving DecidableEq

namespace Dict
variable {κ ν : Type}

@[ext] theorem ext {d d' : Dict κ ν} (h : d.entries = d'.entries) : d = d' := by
  cases d; cases d'; cases h; rfl

/-- `{}`. -/
def empty : Dict κ ν := ⟨[], List.nodup_nil⟩

instance : Inhabited (Dict κ ν) := ⟨empty⟩

/-- `list(d)`: the keys in insertion order. -/
def keys (d : Dict κ ν) : List κ := d.entries.map Prod.fst

/-- `list(d.values())`. -/
def values (d : Dict κ ν) : List ν := d.entries.map Prod.snd

/-- `len(d)`. -/
def size (d : Dict κ ν) : Nat := d.entries.length

/-- The entries whose pair satisfies `p`, in their order. -/
def filter (d : Dict κ ν) (p : κ × ν → Bool) : Dict κ ν :=
  ⟨d.entries.filter p, d.nodup.sublist (List.filter_sublist.map Prod.fst)⟩

@[simp] theorem entries_filter (d : Dict κ ν) (p : κ × ν → Bool) :
    (d.filter p).entries = d.entries.filter p := rfl

theorem filter_filter (d : Dict κ ν) (p q : κ × ν → Bool) :
    (d.filter p).filter q = d.filter fun e => q e && p e := by
  apply ext
  rw [entries_filter, entries_filter, entries_filter, List.filter_filter]

theorem filter_true (d : Dict κ ν) : (d.filter fun _ => true) = d := by
  apply ext
  rw [entries_filter, List.filter_true]

theorem keys_nodup (d : Dict κ ν) : d.keys.Nodup := d.nodup

theorem length_keys (d : Dict κ ν) : d.keys.length = d.size := by simp [keys, size]

variable [DecidableEq κ]

/-- `d.get(k)`. -/
def get? (d : Dict κ ν) (k : κ) : Option ν := d.entries.lookup k

/-- `k in d`. -/
def contains (d : Dict κ ν) (k : κ) : Bool := (d.get? k).isSome

/-- The entry list after `d[k] = v`. -/
def assign (k : κ) (v : ν) : List (κ × ν) → List (κ × ν)
  | [] => [(k, v)]
  | (k', v') :: rest => if k' = k then (k, v) :: rest else (k', v') :: assign k v rest

theorem map_fst_assign (k : κ) (v : ν) (l : List (κ × ν)) :
    (assign k v l).map Prod.fst =
      if k ∈ l.map Prod.fst then l.map Prod.fst else l.map Prod.fst ++ [k] := by
  induction l with
  | nil => simp [assign]
  | cons e l ih =>
    obtain ⟨k', v'⟩ := e
    by_cases h : k' = k
    · simp [assign, h]
    · simp only [assign, if_neg h, List.map_cons, ih, List.mem_cons, Ne.symm h, false_or]
      split <;> simp

/-- `d[k] = v`. -/
def set (d : Dict κ ν) (k : κ) (v : ν) : Dict κ ν where
  entries := assign k v d.entries
  nodup := by
    rw [map_fst_assign]
    split
    · exact d.nodup
    · rename_i h
      refine List.nodup_append.mpr ⟨d.nodup, List.nodup_singleton k, ?_⟩
      rintro a ha b hb rfl
      exact h (List.mem_singleton.mp hb ▸ ha)

/-- `d.pop(k, None)`, and `del d[k]` for a key that is present. -/
def erase (d : Dict κ ν) (k : κ) : Dict κ ν := d.filter fun e => e.1 ≠ k

/-! ## Lookups -/

@[simp] theorem get?_empty (k : κ) : (empty : Dict κ ν).get? k = none := rfl

theorem lookup_cons_ite (k k' : κ) (v : ν) (l : List (κ × ν)) :
    ((k, v) :: l).lookup k' = if k' = k then some v else l.lookup k' := by
  by_cases h : k' = k
  · simp [h]
  · have : (k' == k) = false := beq_eq_false_iff_ne.mpr h
    simp [List.lookup_cons, this, h]

theorem lookup_assign (k k' : κ) (v : ν) (l : List (κ × ν)) :
    (assign k v l).lookup k' = if k' = k then some v else l.lookup k' := by
  induction l with
  | nil => simp only [assign, lookup_cons_ite]
  | cons e l ih =>
    obtain ⟨k₁, v₁⟩ := e
    by_cases h₁ : k₁ = k
    · subst h₁
      simp only [assign, if_true, lookup_cons_ite]
      split <;> rfl
    · simp only [assign, if_neg h₁, lookup_cons_ite, ih]
      by_cases h : k' = k₁
      · subst h
        simp [h₁]
      · simp [h]

/-- Assignment changes the lookup of its own key only. -/
theorem get?_set (d : Dict κ ν) (k k' : κ) (v : ν) :
    (d.set k v).get? k' = if k' = k then some v else d.get? k' :=
  lookup_assign k k' v d.entries

@[simp] theorem get?_set_self (d : Dict κ ν) (k : κ) (v : ν) : (d.set k v).get? k = some v := by
  simp [get?_set]

theorem get?_set_ne (d : Dict κ ν) {k k' : κ} (v : ν) (h : k' ≠ k) :
    (d.set k v).get? k' = d.get? k' := by
  simp [get?_set, h]

/-- An entry is listed exactly when its key looks it up. -/
theorem mem_entries {d : Dict κ ν} {k : κ} {v : ν} : (k, v) ∈ d.entries ↔ d.get? k = some v := by
  obtain ⟨l, nodup⟩ := d
  simp only [get?]
  induction l with
  | nil => simp
  | cons e l ih =>
    obtain ⟨k', v'⟩ := e
    obtain ⟨fresh, distinct⟩ := List.nodup_cons.mp nodup
    rw [lookup_cons_ite, List.mem_cons, ih distinct]
    by_cases h : k = k'
    · subst h
      have absent : l.lookup k ≠ some v := fun found =>
        fresh (List.mem_map.mpr ⟨(k, v), (ih distinct).mpr found, rfl⟩)
      simp [absent, eq_comm]
    · simp [h]

theorem mem_keys {d : Dict κ ν} {k : κ} : k ∈ d.keys ↔ ∃ v, d.get? k = some v := by
  simp [keys, ← mem_entries]

theorem mem_keys_isSome {d : Dict κ ν} {k : κ} : k ∈ d.keys ↔ (d.get? k).isSome := by
  rw [mem_keys, Option.isSome_iff_exists]

theorem contains_iff {d : Dict κ ν} {k : κ} : d.contains k = true ↔ ∃ v, d.get? k = some v :=
  Option.isSome_iff_exists

/-- Assignment keeps the keys that are there. -/
theorem contains_set (d : Dict κ ν) (k : κ) (v : ν) (k' : κ) :
    (d.set k v).contains k' = true ↔ k' = k ∨ d.contains k' = true := by
  unfold contains
  rw [get?_set]
  split <;> simp [*]

theorem get?_filter (d : Dict κ ν) (p : κ × ν → Bool) (k : κ) :
    (d.filter p).get? k = (d.get? k).filter fun v => p (k, v) := by
  apply Option.ext
  intro v
  rw [← mem_entries, entries_filter, List.mem_filter, mem_entries, Option.filter_eq_some_iff]

/-- Deletion changes the lookup of its own key only. -/
theorem get?_erase (d : Dict κ ν) (k k' : κ) :
    (d.erase k).get? k' = if k' = k then none else d.get? k' := by
  rw [erase, get?_filter]
  by_cases h : k' = k
  · simp [h, Option.filter]; cases d.get? k <;> rfl
  · simp [h, Option.filter]; cases d.get? k' <;> rfl

@[simp] theorem get?_erase_self (d : Dict κ ν) (k : κ) : (d.erase k).get? k = none := by
  simp [get?_erase]

theorem get?_erase_ne (d : Dict κ ν) {k k' : κ} (h : k' ≠ k) : (d.erase k).get? k' = d.get? k' := by
  simp [get?_erase, h]

/-- `d.update(e)`: the entries of `e` come before those of `d`. -/
theorem get?_update (d e : Dict κ ν) (k : κ) :
    (e.entries.foldl (fun d entry => d.set entry.1 entry.2) d).get? k = (e.get? k).or (d.get? k) := by
  obtain ⟨l, nodup⟩ := e
  simp only [get?]
  induction l generalizing d with
  | nil => rfl
  | cons entry l ih =>
    obtain ⟨k', v⟩ := entry
    obtain ⟨fresh, distinct⟩ := List.nodup_cons.mp nodup
    rw [List.foldl_cons, ih _ distinct, lookup_cons_ite]
    have assigned := get?_set d k' k v
    rw [get?, get?] at assigned
    rw [assigned]
    by_cases same : k = k'
    · subst same
      have absent : l.lookup k = none := by
        cases found : l.lookup k with
        | none => rfl
        | some v => exact absurd (List.mem_map_of_mem (mem_entries (d := ⟨l, distinct⟩).mpr found)) fresh
      simp [absent]
    · simp [same]

/-- Deleting an absent key changes nothing. -/
theorem erase_of_absent {d : Dict κ ν} {k : κ} (h : d.get? k = none) : d.erase k = d := by
  apply ext
  rw [erase, entries_filter, List.filter_eq_self]
  intro e he
  have : e.1 ≠ k := by
    rintro rfl
    rw [mem_entries.mp he] at h
    cases h
  simpa using this

/-- Assignment adds an entry when its key is new. -/
theorem size_set (d : Dict κ ν) (k : κ) (v : ν) :
    (d.set k v).size = if d.contains k then d.size else d.size + 1 := by
  have keys : (d.set k v).keys = if k ∈ d.keys then d.keys else d.keys ++ [k] :=
    map_fst_assign k v d.entries
  rw [← length_keys, keys, ← length_keys]
  by_cases h : d.contains k = true
  · rw [if_pos h, if_pos (mem_keys_isSome.mpr h)]
  · rw [if_neg h, if_neg fun m => h (mem_keys_isSome.mp m), List.length_append, List.length_singleton]

/-- Deletion takes the one entry of its key away. -/
theorem size_erase {d : Dict κ ν} {k : κ} (h : d.contains k = true) :
    (d.erase k).size + 1 = d.size := by
  have keys : (d.erase k).keys = d.keys.erase k := by
    rw [d.keys_nodup.erase_eq_filter k, Dict.keys, erase, entries_filter, Dict.keys, List.filter_map]
    refine congrArg _ (List.filter_congr fun e _ => ?_)
    by_cases same : e.1 = k <;> simp [same]
  have m : k ∈ d.keys := mem_keys_isSome.mpr h
  have := List.length_pos_of_mem m
  rw [← length_keys, keys, List.length_erase_of_mem m, ← length_keys]
  omega

/-- A dictionary without entries is the empty one. -/
theorem eq_empty_of_get? {d : Dict κ ν} (h : ∀ k, d.get? k = none) : d = empty := by
  apply ext
  apply List.eq_nil_iff_forall_not_mem.mpr
  rintro ⟨k, v⟩ m
  rw [mem_entries, h k] at m
  cases m

end Dict

/-! ## Sets -/

/-- A Python `set`, listed in one iteration order. -/
structure OrdSet (α : Type) where
  elems : List α
  nodup : elems.Nodup
deriving DecidableEq

namespace OrdSet
variable {α : Type}

/-- `set()`. -/
def empty : OrdSet α := ⟨[], List.nodup_nil⟩

instance : Inhabited (OrdSet α) := ⟨empty⟩

instance : Membership α (OrdSet α) := ⟨fun s a => a ∈ s.elems⟩

theorem mem_def {s : OrdSet α} {a : α} : a ∈ s ↔ a ∈ s.elems := Iff.rfl

@[simp] theorem not_mem_empty (a : α) : a ∉ (empty : OrdSet α) := List.not_mem_nil

variable [DecidableEq α]

instance (a : α) (s : OrdSet α) : Decidable (a ∈ s) := inferInstanceAs (Decidable (a ∈ s.elems))

/-- `s.add(a)`. -/
def add (s : OrdSet α) (a : α) : OrdSet α :=
  if h : a ∈ s.elems then s
  else
    { elems := s.elems ++ [a]
      nodup := by
        refine List.nodup_append.mpr ⟨s.nodup, List.nodup_singleton a, ?_⟩
        rintro b hb c hc rfl
        exact h (List.mem_singleton.mp hc ▸ hb) }

/-- `s.discard(a)`. -/
def discard (s : OrdSet α) (a : α) : OrdSet α := ⟨s.elems.erase a, s.nodup.erase a⟩

@[simp] theorem mem_add {s : OrdSet α} {a b : α} : b ∈ s.add a ↔ b = a ∨ b ∈ s := by
  unfold add
  split
  · rename_i h
    constructor
    · exact Or.inr
    · rintro (rfl | m)
      · exact h
      · exact m
  · simp [mem_def, or_comm]

@[simp] theorem mem_discard {s : OrdSet α} {a b : α} : b ∈ s.discard a ↔ b ≠ a ∧ b ∈ s :=
  s.nodup.mem_erase_iff

end OrdSet
end Py
