import LiteStore.Lib.Machine

/-!
# Machines and specifications

A `Spec` says which output and which next state it allows for an input, perhaps more than one. A machine
refines it if each of its runs is a run of the specification with the same outputs (`Machine.refines`).
The relation between the states may look at the inputs to come, so that a condition on a whole run can be
part of it.
-/

set_option autoImplicit false

/-- What a machine may do. -/
structure Spec (σ α β : Type) where
  allows : σ → α → β → σ → Prop

namespace Spec
variable {σ α β : Type}

/-- Inputs with outputs that are allowed for them. -/
inductive Runs (S : Spec σ α β) : σ → List α → List β → σ → Prop
  | nil (s : σ) : S.Runs s [] [] s
  | cons {s s' s'' : σ} {a : α} {b : β} {l : List α} {outputs : List β} (first : S.allows s a b s')
      (rest : S.Runs s' l outputs s'') : S.Runs s (a :: l) (b :: outputs) s''

variable {S : Spec σ α β}

/-- What every allowed step keeps, every run keeps. -/
theorem Runs.invariant {I : σ → Prop} {s s' : σ} {l : List α} {outputs : List β} (run : S.Runs s l outputs s')
    (keep : ∀ s a b s', a ∈ l → I s → S.allows s a b s' → I s') (start : I s) : I s' := by
  induction run with
  | nil s => exact start
  | cons first rest ih =>
    exact ih (fun s a b s' m => keep s a b s' (List.mem_cons_of_mem _ m)) (keep _ _ _ _ List.mem_cons_self start first)

end Spec

namespace Machine
variable {σ τ α β : Type}

/-- The outputs of a run. -/
def outputs (M : Machine σ α β) : σ → List α → List β
  | _, [] => []
  | s, a :: l => (M.step s a).1 :: M.outputs (M.step s a).2 l

/-- **Forward simulation.** -/
theorem refines (M : Machine σ α β) {S : Spec τ α β} {R : List α → σ → τ → Prop}
    (step : ∀ a l s t, R (a :: l) s t → ∃ t', S.allows t a (M.step s a).1 t' ∧ R l (M.step s a).2 t')
    {l : List α} {s : σ} {t : τ} (start : R l s t) :
    ∃ t', S.Runs t l (M.outputs s l) t' ∧ R [] (M.after s l) t' := by
  induction l generalizing s t with
  | nil => exact ⟨t, .nil t, start⟩
  | cons a l ih =>
    obtain ⟨t', allowed, next⟩ := step a l s t start
    obtain ⟨t'', rest, last⟩ := ih next
    exact ⟨t'', .cons allowed rest, last⟩

end Machine
