import Mathlib.Order.Lattice

/-!
# Maps with deadlines

A key of an `ExpiringMap` may have a deadline. A store need not drop a key at once: with some `slack`, an
expiry at time `t` drops only keys whose deadlines have come, and at least those whose deadlines came by
`slack` ago (`Expires`). Without slack the outcome is determined.
-/

set_option autoImplicit false

/-- The value and the deadline, if any, of each key. -/
@[ext] structure ExpiringMap (κ ν τ : Type) where
  get? : κ → Option (ν × Option τ)

namespace ExpiringMap
variable {κ ν τ : Type}

/-- The map without keys. -/
def empty : ExpiringMap κ ν τ := ⟨fun _ => none⟩

/-- The value of a key. -/
def value (m : ExpiringMap κ ν τ) (k : κ) : Option ν := (m.get? k).map Prod.fst

section Updates
variable [DecidableEq κ]

/-- A key gets a value, and loses its deadline. -/
def put (m : ExpiringMap κ ν τ) (k : κ) (v : ν) : ExpiringMap κ ν τ :=
  ⟨fun k' => if k' = k then some (v, none) else m.get? k'⟩

/-- A key is dropped. -/
def erase (m : ExpiringMap κ ν τ) (k : κ) : ExpiringMap κ ν τ :=
  ⟨fun k' => if k' = k then none else m.get? k'⟩

/-- A key gets a deadline, if it is there. -/
def setDeadline (m : ExpiringMap κ ν τ) (k : κ) (d : τ) : ExpiringMap κ ν τ :=
  ⟨fun k' => if k' = k then (m.get? k').map fun e => (e.1, some d) else m.get? k'⟩

end Updates

/-! ## Expiry -/

section Expiry
variable [Add τ] [LinearOrder τ]

/-- What may become of a key at time `t`. -/
def Lapses (slack t : τ) (before after : Option (ν × Option τ)) : Prop :=
  (after = before ∧ ∀ v d, before = some (v, some d) → t < d + slack) ∨
    after = none ∧ ∃ v d, before = some (v, some d) ∧ d ≤ t

/-- What may become of all keys at time `t`. -/
def Expires (slack t : τ) (m m' : ExpiringMap κ ν τ) : Prop := ∀ k, Lapses slack t (m.get? k) (m'.get? k)

variable {slack t : τ} {m m' : ExpiringMap κ ν τ} {k : κ} {v : ν} {d : τ}

/-- A key is left as it was, or dropped since its deadline has come. -/
theorem Expires.same_or (h : Expires slack t m m') (k : κ) :
    m'.get? k = m.get? k ∨ m'.get? k = none ∧ ∃ v d, m.get? k = some (v, some d) ∧ d ≤ t :=
  (h k).imp And.left id

/-- **No key is dropped early.** -/
theorem Expires.kept (h : Expires slack t m m') {d? : Option τ} (held : m.get? k = some (v, d?))
    (pending : ∀ d ∈ d?, t < d) : m'.get? k = some (v, d?) := by
  rcases h k with ⟨same, _⟩ | ⟨_, v', d, timed, past⟩
  · exact same.trans held
  · obtain ⟨rfl, rfl⟩ : v = v' ∧ d? = some d := by simpa [held] using timed
    exact absurd (pending d rfl) (not_lt.mpr past)

/-- **No key is kept for longer than the slack.** -/
theorem Expires.gone (h : Expires slack t m m') (held : m.get? k = some (v, some d)) (late : d + slack ≤ t) :
    m'.get? k = none := by
  rcases h k with ⟨_, fresh⟩ | ⟨gone, _⟩
  · exact absurd (fresh v d held) (not_lt.mpr late)
  · exact gone

/-- An absent key stays away. -/
theorem Expires.absent (h : Expires slack t m m') (none : m.get? k = none) : m'.get? k = Option.none := by
  rcases h k with ⟨same, _⟩ | ⟨gone, _⟩
  · exact same.trans none
  · exact gone

end Expiry
end ExpiringMap
