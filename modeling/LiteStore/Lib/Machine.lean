import Mathlib.Data.List.Infix

/-!
# Deterministic machines with outputs

A `Machine` answers each input and moves to a new state. The rules below lift
facts about one step to whole runs: an invariant, an invariant under a condition
that every step of the run meets (`Along`), a property of the state after every
prefix, and the comparison of the answers of two machines in lockstep.
-/

set_option autoImplicit false

/-- A deterministic machine: one input gives an output and the next state. -/
structure Machine (σ α β : Type) where
  step : σ → α → β × σ

namespace Machine
variable {σ τ α β : Type}

/-- The state after a list of inputs. -/
def after (M : Machine σ α β) : σ → List α → σ
  | s, [] => s
  | s, a :: l => M.after (M.step s a).2 l

/-- The items that the steps of a run contribute, in order. -/
def collect {γ : Type} (M : Machine σ α β) (f : σ → α → List γ) : σ → List α → List γ
  | _, [] => []
  | s, a :: l => f s a ++ M.collect f (M.step s a).2 l

/-- `P` holds at every step of the run, of the state before it and its input. -/
def Along (M : Machine σ α β) (P : σ → α → Prop) : σ → List α → Prop
  | _, [] => True
  | s, a :: l => P s a ∧ M.Along P (M.step s a).2 l

instance (M : Machine σ α β) (P : σ → α → Prop) [∀ s a, Decidable (P s a)] :
    ∀ s l, Decidable (M.Along P s l)
  | _, [] => inferInstanceAs (Decidable True)
  | s, a :: l =>
    have := instDecidableAlong M P (M.step s a).2 l
    inferInstanceAs (Decidable (P s a ∧ M.Along P (M.step s a).2 l))

@[simp] theorem after_nil (M : Machine σ α β) (s : σ) : M.after s [] = s := rfl

@[simp] theorem after_cons (M : Machine σ α β) (s : σ) (a : α) (l : List α) :
    M.after s (a :: l) = M.after (M.step s a).2 l := rfl

theorem after_append (M : Machine σ α β) (s : σ) (l l' : List α) :
    M.after s (l ++ l') = M.after (M.after s l) l' := by
  induction l generalizing s with
  | nil => rfl
  | cons a l ih => exact ih _

theorem collect_append {γ : Type} (M : Machine σ α β) (f : σ → α → List γ) (s : σ) (l l' : List α) :
    M.collect f s (l ++ l') = M.collect f s l ++ M.collect f (M.after s l) l' := by
  induction l generalizing s with
  | nil => rfl
  | cons a l ih => rw [List.cons_append, collect, ih, collect, List.append_assoc, after_cons]

/-- **Queue rule.** If every step takes from the front of a queue and adds at its end, then over a run what was there
and what is added is what is taken and what is left. -/
theorem fifo {γ : Type} (M : Machine σ α β) {queue : σ → List γ} {ins outs : σ → α → List γ}
    (step : ∀ s a, queue s ++ ins s a = outs s a ++ queue (M.step s a).2) (s : σ) (l : List α) :
    queue s ++ M.collect ins s l = M.collect outs s l ++ queue (M.after s l) := by
  induction l generalizing s with
  | nil => exact List.append_nil _
  | cons a l ih => rw [collect, ← List.append_assoc, step, List.append_assoc, ih, collect, List.append_assoc, after_cons]

/-- If every step adds at the end of a list, so does a run. -/
theorem accumulates {γ : Type} (M : Machine σ α β) {f : σ → List γ} {adds : σ → α → List γ}
    (step : ∀ s a, f (M.step s a).2 = f s ++ adds s a) (s : σ) (l : List α) :
    f (M.after s l) = f s ++ M.collect adds s l := by
  induction l generalizing s with
  | nil => exact (List.append_nil _).symm
  | cons a l ih => rw [after_cons, ih, step, collect, List.append_assoc]

theorem collect_map {γ δ : Type} (M : Machine σ α β) (f : σ → α → List γ) (g : γ → δ) (s : σ) (l : List α) :
    (M.collect f s l).map g = M.collect (fun s a => (f s a).map g) s l := by
  induction l generalizing s with
  | nil => rfl
  | cons a l ih => rw [collect, List.map_append, ih, collect]

/-- If no step contributes more than one item, a run reaches every number of them up to its own. -/
theorem exists_prefix_collect {γ : Type} (M : Machine σ α β) {f : σ → α → List γ}
    (single : ∀ s a, (f s a).length ≤ 1) (s : σ) (l : List α) {j : Nat} (bound : j ≤ (M.collect f s l).length) :
    ∃ p, p <+: l ∧ (M.collect f s p).length = j := by
  induction l generalizing s j with
  | nil => exact ⟨[], List.prefix_rfl, (Nat.le_zero.mp bound).symm⟩
  | cons a l ih =>
    rcases Nat.eq_zero_or_pos j with rfl | pos
    · exact ⟨[], List.nil_prefix, rfl⟩
    · have one := single s a
      rw [collect, List.length_append] at bound
      obtain ⟨p, sub, count⟩ := ih (M.step s a).2 (j := j - (f s a).length) (by omega)
      refine ⟨a :: p, List.cons_prefix_cons.mpr ⟨rfl, sub⟩, ?_⟩
      rw [collect, List.length_append, count]
      omega

theorem Along.mono {M : Machine σ α β} {P Q : σ → α → Prop} {s : σ} {l : List α}
    (h : M.Along P s l) (imp : ∀ s a, P s a → Q s a) : M.Along Q s l := by
  induction l generalizing s with
  | nil => trivial
  | cons a l ih => exact ⟨imp s a h.1, ih h.2⟩

theorem along_append {M : Machine σ α β} {P : σ → α → Prop} {s : σ} {l l' : List α} :
    M.Along P s (l ++ l') ↔ M.Along P s l ∧ M.Along P (M.after s l) l' := by
  induction l generalizing s with
  | nil => exact (true_and _).symm.to_iff
  | cons a l ih => exact (and_congr_right fun _ => ih).trans and_assoc.symm

/-- Two conditions that agree on the states of an invariant agree along a run. -/
theorem along_congr (M : Machine σ α β) {I : σ → Prop} {P Q : σ → α → Prop} {s : σ} (start : I s)
    (keep : ∀ s a, I s → I (M.step s a).2) (same : ∀ s a, I s → (P s a ↔ Q s a)) (l : List α) :
    M.Along P s l ↔ M.Along Q s l := by
  induction l generalizing s with
  | nil => exact Iff.rfl
  | cons a l ih => exact and_congr (same s a start) (ih (keep s a start))

/-- A first part of a run. -/
theorem Along.left {M : Machine σ α β} {P : σ → α → Prop} {s : σ} {l l' : List α} (h : M.Along P s (l ++ l')) :
    M.Along P s l :=
  (along_append.mp h).1

/-- A condition on the inputs alone holds along a run when it holds of each input. -/
theorem along_of_forall {M : Machine σ α β} {P : α → Prop} (s : σ) {l : List α}
    (h : ∀ a ∈ l, P a) : M.Along (fun _ a => P a) s l := by
  induction l generalizing s with
  | nil => trivial
  | cons a l ih => exact ⟨h a (by simp), ih _ fun b member => h b (by simp [member])⟩

/-- **Invariant rule** under a condition on the steps. -/
theorem invariant_along (M : Machine σ α β) {I : σ → Prop} {P : σ → α → Prop} {s : σ} {l : List α}
    (start : I s) (steps : M.Along P s l)
    (keep : ∀ s a, I s → P s a → I (M.step s a).2) : I (M.after s l) := by
  induction l generalizing s with
  | nil => exact start
  | cons a l ih => exact ih (keep s a start steps.1) steps.2

/-- **Invariant rule.** -/
theorem invariant (M : Machine σ α β) {I : σ → Prop} {s : σ} (start : I s)
    (keep : ∀ s a, I s → I (M.step s a).2) (l : List α) : I (M.after s l) :=
  M.invariant_along start (along_of_forall (P := fun _ => True) s fun _ _ => trivial)
    fun s a h _ => keep s a h

/-- A property of the state after every prefix is one of the first state and of the state
after every step. -/
theorem forall_prefix_iff (M : Machine σ α β) {Q : σ → Prop} {s : σ} {l : List α} :
    (∀ p, p <+: l → Q (M.after s p)) ↔ Q s ∧ M.Along (fun s a => Q (M.step s a).2) s l := by
  induction l generalizing s with
  | nil => simp [Along]
  | cons a l ih =>
    constructor
    · intro h
      have first : Q (M.step s a).2 := h [a] (by simp)
      refine ⟨h [] List.nil_prefix, first, (ih.mp fun p sub => ?_).2⟩
      exact h (a :: p) (by simpa using sub)
    · rintro ⟨start, first, rest⟩ p sub
      cases p with
      | nil => exact start
      | cons b p =>
        obtain ⟨rfl, tail⟩ := List.cons_prefix_cons.mp sub
        exact ih.mpr ⟨first, rest⟩ p tail

/-- **Prefix rule.** If a step that meets `P` keeps an invariant under which `Q` holds, and a
step that does not meet it breaks `Q`, then `Q` holds after every prefix exactly when every step
meets `P`. -/
theorem forall_prefix_along (M : Machine σ α β) {I Q : σ → Prop} {A : α → Prop} {P : σ → α → Prop}
    {s : σ} {l : List α} (start : I s) (inputs : ∀ a ∈ l, A a) (holds : ∀ s, I s → Q s)
    (keep : ∀ s a, I s → A a → P s a → I (M.step s a).2)
    (breaks : ∀ s a, I s → A a → ¬ P s a → ¬ Q (M.step s a).2) :
    (∀ p, p <+: l → Q (M.after s p)) ↔ M.Along P s l := by
  rw [M.forall_prefix_iff]
  simp only [holds s start, true_and]
  induction l generalizing s with
  | nil => exact ⟨fun _ => trivial, fun _ => trivial⟩
  | cons a l ih =>
    have here := inputs a (by simp)
    by_cases meets : P s a
    · have next := keep s a start here meets
      have rest := ih next fun b member => inputs b (by simp [member])
      exact ⟨fun h => ⟨meets, rest.mp h.2⟩, fun h => ⟨holds _ next, rest.mpr h.2⟩⟩
    · exact ⟨fun h => absurd h.1 (breaks s a start here meets), fun h => absurd h.1 meets⟩

/-- Two machines give related answers to every input of a run. -/
def Alike (E : α → β → β → Prop) (M : Machine σ α β) (N : Machine τ α β) : σ → τ → List α → Prop
  | _, _, [] => True
  | s, t, a :: l =>
    E a (M.step s a).1 (N.step t a).1 ∧ Alike E M N (M.step s a).2 (N.step t a).2 l

/-- **Lockstep.** Two machines whose states stay related answer alike throughout a run exactly
when the second meets the condition for that at each of its steps. -/
theorem alike_iff {E : α → β → β → Prop} {M : Machine σ α β} {N : Machine τ α β} {R : σ → τ → Prop}
    {A : α → Prop} {P : τ → α → Prop}
    (keep : ∀ s t a, R s t → A a → R (M.step s a).2 (N.step t a).2)
    (agree : ∀ s t a, R s t → A a → (E a (M.step s a).1 (N.step t a).1 ↔ P t a))
    {s : σ} {t : τ} (start : R s t) {l : List α} (inputs : ∀ a ∈ l, A a) :
    Alike E M N s t l ↔ N.Along P t l := by
  induction l generalizing s t with
  | nil => exact Iff.rfl
  | cons a l ih =>
    have here := inputs a (by simp)
    exact and_congr (agree s t a start here)
      (ih (keep s t a start here) fun b member => inputs b (by simp [member]))

end Machine
