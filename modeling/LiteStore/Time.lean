import LiteStore.Types
import Mathlib.Data.Rat.Floor

/-!
# Timestamps

The store and its timing wheel compute with timestamps in four places: a
deadline is a reading plus whole seconds, a tick is a rounded-down quotient, a
rebase turns a tick back into a timestamp, and TTL truncates a difference. The
code is written once over any timestamps `τ` and any effect `m` those four
operations have. Exact rationals never raise, so they run in `Id`; Python
floats raise `OverflowError`, so they run in `Except PyError`.
-/

namespace LiteStore
set_option autoImplicit false

/-- Timestamps are ordered, `0.1` is one of them, and it is the shortest period of the
workers' expiry cycle. -/
class Timestamp (τ : Type) [LinearOrder τ] [Zero τ] where
  tenth : τ
  tenth_pos : 0 < tenth
  /-- `now - earlier > 0.1`. -/
  tenthSince : τ → τ → Bool

/-- The timestamp arithmetic of the store and the wheel. -/
class TimeArith (m : Type → Type) (τ : Type) where
  /-- `timestamp + seconds`. -/
  addSeconds : τ → Int → m τ
  /-- `math.floor((timestamp - origin) / tick_seconds)`. -/
  floorTicks : τ → τ → τ → m Int
  /-- `origin + ticks * tick_seconds`. -/
  afterTicks : τ → Int → τ → m τ
  /-- `int(expires_at - now)`. -/
  wholeSeconds : τ → τ → m Int

/-- `int(q)` truncates toward zero. -/
def truncate (q : ℚ) : Int := if 0 ≤ q then ⌊q⌋ else ⌈q⌉

/-- `truncate` is negative exactly from `-1` downwards. -/
theorem truncate_neg_iff {q : ℚ} : truncate q < 0 ↔ q ≤ -1 := by
  unfold truncate
  split
  · rename_i h
    rw [Int.floor_lt]
    push_cast
    constructor <;> intro _ <;> linarith
  · rw [show (⌈q⌉ < 0) ↔ ⌈q⌉ ≤ -1 by omega, Int.ceil_le]
    norm_num

/-- `truncate` reaches the positive integers that the number reaches. -/
theorem le_truncate_iff {q : ℚ} {n : Nat} (positive : 0 < n) : (n : Int) ≤ truncate q ↔ (n : ℚ) ≤ q := by
  unfold truncate
  split
  · rw [Int.le_floor]
    push_cast
    exact Iff.rfl
  · rename_i negative
    have above : ⌈q⌉ ≤ 0 := Int.ceil_le.mpr (by push_cast; linarith)
    have real : (0 : ℚ) < n := by exact_mod_cast positive
    constructor <;> intro _
    · omega
    · linarith

instance : Timestamp ℚ where
  tenth := 1 / 10
  tenth_pos := by norm_num
  tenthSince now earlier := decide (now - earlier > 1 / 10)

/-- Exact rational time. -/
instance : TimeArith Id ℚ where
  addSeconds t n := (t + (n : ℚ) : ℚ)
  floorTicks t origin tick := ⌊(t - origin) / tick⌋
  afterTicks origin n tick := (origin + (n : ℚ) * tick : ℚ)
  wholeSeconds d now := truncate (d - now)

/-- What a computation in `m` comes to: a value or the exception it raises. -/
class PyMonad (m : Type → Type) extends Monad m where
  outcome {α : Type} : m α → Except PyError α
  outcome_pure {α : Type} (a : α) : outcome (pure a) = .ok a
  outcome_bind {α β : Type} (x : m α) (f : α → m β) :
    outcome (x >>= f) = outcome x >>= fun a => outcome (f a)

instance : PyMonad Id where
  toMonad := inferInstance
  outcome x := .ok x
  outcome_pure _ := rfl
  outcome_bind _ _ := rfl

instance : PyMonad (Except PyError) where
  toMonad := inferInstance
  outcome x := x
  outcome_pure _ := rfl
  outcome_bind _ _ := rfl

/-- A computation raises nothing. -/
def Returns {m : Type → Type} [PyMonad m] {α : Type} (x : m α) : Prop :=
  ∃ a, PyMonad.outcome x = .ok a

/-- A sequence of computations comes to a value exactly when its parts do. -/
theorem bind_eq_ok {α β : Type} {x : Except PyError α} {f : α → Except PyError β} {b : β} :
    (x >>= f) = .ok b ↔ ∃ a, x = .ok a ∧ f a = .ok b := by
  cases x with
  | error e =>
    constructor
    · intro h; cases h
    · rintro ⟨a, h, _⟩; cases h
  | ok a =>
    constructor
    · intro h; exact ⟨a, rfl, h⟩
    · rintro ⟨a', h, rest⟩; cases h; exact rest

theorem outcome_exact {α : Type} (x : Id α) : PyMonad.outcome x = .ok (Id.run x) := rfl

theorem returns_exact {α : Type} (x : Id α) : Returns x := ⟨x, rfl⟩

/-- The readings that the successive `time_source()` calls of one operation return. -/
abbrev Clock (τ : Type) := Nat → τ

/-- The readings from the `n`-th call on. -/
def Clock.drop {τ : Type} (clock : Clock τ) (n : Nat) : Clock τ := fun i => clock (n + i)

/-- A clock that stands still. -/
def Clock.still {τ : Type} (t : τ) : Clock τ := fun _ => t

@[simp] theorem Clock.drop_apply {τ : Type} (clock : Clock τ) (n i : Nat) :
    clock.drop n i = clock (n + i) := rfl

@[simp] theorem Clock.still_apply {τ : Type} (t : τ) (i : Nat) : Clock.still t i = t := rfl

@[simp] theorem Clock.drop_still {τ : Type} (t : τ) (n : Nat) :
    (Clock.still t).drop n = Clock.still t := rfl

end LiteStore
