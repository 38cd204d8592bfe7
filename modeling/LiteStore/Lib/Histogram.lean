import Mathlib.Data.List.Basic
import Mathlib.Order.Lattice

/-!
# Cumulative histograms

A histogram over rising bounds counts a value in its bucket, that of the first bound which is not
below the value, or nowhere if it is above all of them. The running sums of the counts are then the
numbers of values up to each bound (`cumulate_bucket`).
-/

namespace Histogram
set_option autoImplicit false

variable {α : Type} [LinearOrder α]

/-- The first bound that is not below the value. -/
def bucket? (bounds : List α) (value : α) : Option α := bounds.find? fun bound => value ≤ bound

/-- The running sums of the counts, from `total` on. -/
def cumulate (count : α → Nat) : Nat → List α → List Nat
  | _, [] => []
  | total, bound :: bounds => (total + count bound) :: cumulate count (total + count bound) bounds

/-- Whether one of the bounds is not below the value. -/
def reached (bounds : List α) (value : α) : Bool := bounds.any fun bound => value ≤ bound

/-- A value is in the bucket of `b` if the bounds in front are below it and `b` is not. -/
theorem bucket?_append {front back : List α} {b : α} (below : ∀ a ∈ front, a < b) (value : α) :
    bucket? (front ++ b :: back) value = some b ↔ reached front value = false ∧ value ≤ b := by
  unfold bucket? reached
  rw [List.find?_append]
  cases found : front.find? fun bound => value ≤ bound with
  | some a =>
    have m := List.mem_of_find?_eq_some found
    have holds := List.find?_some found
    have any : (front.any fun bound => value ≤ bound) = true := List.any_eq_true.mpr ⟨a, m, holds⟩
    simp [any, (below a m).ne]
  | none =>
    have any : (front.any fun bound => value ≤ bound) = false := by simpa using found
    rw [Option.none_or, List.find?_cons, any]
    by_cases holds : value ≤ b
    · simp [holds]
    · simp only [holds, decide_false, and_false, iff_false]
      intro later
      have := List.find?_some later
      simp [holds] at this

/-- Bounds in front of `b` are reached by no more values than `b` is. -/
theorem reached_append {front : List α} {b : α} (below : ∀ a ∈ front, a < b) (value : α) :
    reached (front ++ [b]) value = true ↔ value ≤ b := by
  simp only [reached, List.any_append, List.any_cons, List.any_nil, Bool.or_false, Bool.or_eq_true,
    List.any_eq_true, decide_eq_true_eq]
  constructor
  · rintro (⟨a, m, holds⟩ | holds)
    · exact le_trans holds (below a m).le
    · exact holds
  · exact .inr

/-- The next bound adds its bucket to what the bounds in front have counted. -/
theorem countP_reached (values : List α) {front back : List α} {b : α} (below : ∀ a ∈ front, a < b) :
    values.countP (reached front) + (values.countP fun v => bucket? (front ++ b :: back) v = some b) =
      values.countP fun v => v ≤ b := by
  induction values with
  | nil => rfl
  | cons v values ih =>
    simp only [List.countP_cons, decide_eq_true_eq, bucket?_append below]
    simp only [bucket?_append below] at ih
    have included : reached front v = true → v ≤ b := fun front_reached => by
      obtain ⟨a, m, holds⟩ := List.any_eq_true.mp front_reached
      exact le_trans (of_decide_eq_true holds) (below a m).le
    cases early : reached front v with
    | true =>
      have := included early
      simp only [this, and_true, if_true, Bool.true_eq_false, if_false]
      omega
    | false =>
      by_cases holds : v ≤ b
      · simp only [holds, and_true, if_true, Bool.false_eq_true, if_false]
        omega
      · simp only [holds, and_false, Bool.false_eq_true, if_false]
        omega

theorem cumulate_append (values : List α) {front back : List α}
    (sorted : (front ++ back).Pairwise (· < ·)) :
    cumulate (fun b => values.countP fun v => bucket? (front ++ back) v = some b)
        (values.countP (reached front)) back =
      back.map fun b => values.countP fun v => v ≤ b := by
  induction back generalizing front with
  | nil => rfl
  | cons b back ih =>
    have below : ∀ a ∈ front, a < b := fun a m =>
      (List.pairwise_append.mp sorted).2.2 a m b List.mem_cons_self
    have sum : values.countP (reached front) +
        (values.countP fun v => bucket? (front ++ b :: back) v = some b) = values.countP fun v => v ≤ b :=
      countP_reached values below
    have next : values.countP (reached (front ++ [b])) = values.countP fun v => v ≤ b :=
      List.countP_congr fun v _ => by rw [reached_append below, decide_eq_true_eq]
    have rest := @ih (front ++ [b]) (by rwa [List.append_assoc])
    rw [next, List.append_assoc] at rest
    rw [cumulate, sum, List.map_cons]
    exact congrArg (List.cons _) rest

/-- **A histogram cumulates**: over rising bounds, the running sums of the buckets are the numbers of
values up to each bound. -/
theorem cumulate_bucket (values : List α) {bounds : List α} (sorted : bounds.Pairwise (· < ·)) :
    cumulate (fun b => values.countP fun v => bucket? bounds v = some b) 0 bounds =
      bounds.map fun b => values.countP fun v => v ≤ b := by
  have none : values.countP (reached []) = 0 := List.countP_eq_zero.mpr fun v _ => Bool.false_ne_true
  have whole := @cumulate_append _ _ values [] bounds sorted
  rw [none] at whole
  exact whole

/-- The numbers of values up to rising bounds rise. -/
theorem pairwise_countP_le (values : List α) {bounds : List α} (sorted : bounds.Pairwise (· < ·)) :
    (bounds.map fun b => values.countP fun v => v ≤ b).Pairwise (· ≤ ·) := by
  apply List.pairwise_map.mpr
  apply sorted.imp
  intro a b less
  apply List.countP_mono_left
  intro v _ holds
  exact decide_eq_true (le_trans (of_decide_eq_true holds) less.le)

end Histogram
