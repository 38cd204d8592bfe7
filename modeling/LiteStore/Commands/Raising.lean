import LiteStore.Commands.Answers
import LiteStore.Store.Raising

/-!
# Commands where time can raise

`execute_command` returns when the store operation it calls does, and what it leaves is coherent.
-/

namespace LiteStore
set_option autoImplicit false
open Py MemoryStore

variable {τ : Type} [LinearOrder τ] [Zero τ] [TimeArith (Except PyError) τ] {s : MemoryStore τ}
  {clock : Clock τ}

/-- **`MGET`** returns when each of its readings has a tick. -/
theorem getAll_ok (h : s.Coherent) (keys : List String) :
    Returns (getAll (m := Except PyError) s clock keys) ↔
      ∀ i < keys.length, s.Ticked (clock 0) (clock i) := by
  show (∃ r, getAll (m := Except PyError) s clock keys = .ok r) ↔ _
  induction keys generalizing s clock with
  | nil => exact ⟨fun _ i less => absurd less (Nat.not_lt_zero i), fun _ => ⟨_, rfl⟩⟩
  | cons key keys ih =>
    have rest : (∃ r, getAll (m := Except PyError) (s.passed (clock 0)) (clock.drop 1) keys = .ok r) ↔
        ∀ i < keys.length, (s.passed (clock 0)).Ticked (clock 1) (clock (1 + i)) :=
      ih (passed_coherent h (clock 0))
    simp only [passed_ticked h] at rest
    simp only [getAll, bind_eq_ok, get_ok]
    constructor
    · rintro ⟨r, _, ⟨ticked, rfl⟩, more, ran, _⟩ i less
      cases i with
      | zero => exact ticked
      | succ i =>
        rw [Nat.add_comm]
        exact rest.mp ⟨more, ran⟩ i (Nat.lt_of_succ_lt_succ less)
    · intro each
      obtain ⟨more, ran⟩ := rest.mpr fun i less => by
        rw [Nat.add_comm]
        exact each (i + 1) (Nat.succ_lt_succ less)
      exact ⟨_, _, ⟨each 0 (Nat.succ_pos _), rfl⟩, more, ran, rfl⟩

theorem getAll_coherent (h : s.Coherent) {keys : List String} {r : List (Option String) × MemoryStore τ}
    (done : getAll (m := Except PyError) s clock keys = .ok r) : r.2.Coherent := by
  induction keys generalizing s clock r with
  | nil =>
    cases done
    exact h
  | cons key keys ih =>
    simp only [getAll, bind_eq_ok] at done
    obtain ⟨first, got, rest, more, same⟩ := done
    have := ih (h.get got) more
    rw [← Except.ok.inj same]
    exact this

/-- **A command** keeps store and wheel together. -/
theorem executeCommand_coherent [Timestamp τ] (h : s.Coherent) {request : CommandRequest}
    {r : CommandResponse × MemoryStore τ}
    (done : executeCommand (m := Except PyError) request s clock = .ok r) : r.2.Coherent := by
  cases executeCommand_ran (m := Except PyError) done with
  | wrongArity expected => exact h
  | error code message known => exact h
  | ping => exact h
  | set args stored => exact h.set stored
  | get got => exact h.get got
  | delete deleted => exact h.delete deleted
  | expire timed => exact h.expire timed
  | ttl asked => exact h.ttl asked
  | mget got => exact getAll_coherent h got
  | keys matched => exact h.keys matched
  | flush flushed => exact flush_coherent flushed

/-- Answering with what a call returned raises nothing. -/
theorem returns_then {α β : Type} {x : Except PyError α} {f : α → Except PyError β}
    (total : ∀ a, Returns (f a)) : Returns (x >>= f) ↔ Returns x := by
  show (∃ b, (x >>= f) = .ok b) ↔ _
  simp only [bind_eq_ok]
  constructor
  · rintro ⟨b, a, ran, _⟩
    exact ⟨a, ran⟩
  · rintro ⟨a, ran⟩
    obtain ⟨b, same⟩ := total a
    exact ⟨b, a, ran, same⟩

/-- A computation that returns has one value. -/
theorem returns_and {α : Type} {x : Except PyError α} {P : α → Prop} :
    (∃ a, x = .ok a ∧ P a) ↔ Returns x ∧ ∀ a, x = .ok a → P a := by
  constructor
  · rintro ⟨a, ran, holds⟩
    refine ⟨⟨a, ran⟩, fun a' again => ?_⟩
    obtain rfl : a = a' := Except.ok.inj (ran.symm.trans again)
    exact holds
  · rintro ⟨⟨a, ran⟩, each⟩
    exact ⟨a, ran, each a ran⟩

/-- A call whose outcome is known returns when its reading has a tick. -/
theorem returns_of_ok {α : Type} {x : Except PyError α} {P : Prop} {a : α}
    (known : ∀ r, x = .ok r ↔ P ∧ r = a) : Returns x ↔ P := by
  constructor
  · rintro ⟨r, ran⟩
    exact ((known r).mp ran).1
  · intro holds
    exact ⟨a, (known a).mpr ⟨holds, rfl⟩⟩

end LiteStore
