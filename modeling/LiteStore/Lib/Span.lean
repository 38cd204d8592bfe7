import Mathlib.Data.List.TakeWhile

/-!
# Up to the first that fails

A reader that takes elements while `p` holds stops at the first of which it does not.
-/

namespace Span
set_option autoImplicit false

variable {α : Type} {p : α → Bool} {front : List α} {a : α}

theorem takeWhile_stop (all : ∀ x ∈ front, p x = true) (stop : p a = false) (rest : List α) :
    (front ++ a :: rest).takeWhile p = front := by
  have none : (a :: rest).takeWhile p = [] := List.takeWhile_cons_of_neg (ne_true_of_eq_false stop)
  rw [List.takeWhile_append_of_pos all, none, List.append_nil]

theorem dropWhile_stop (all : ∀ x ∈ front, p x = true) (stop : p a = false) (rest : List α) :
    (front ++ a :: rest).dropWhile p = a :: rest := by
  rw [List.dropWhile_append_of_pos all]
  exact List.dropWhile_cons_of_neg (ne_true_of_eq_false stop)

end Span
