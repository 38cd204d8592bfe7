import Mathlib.Algebra.Order.Field.Power
import Mathlib.Data.Int.Log
import Mathlib.Data.Rat.Floor
import Mathlib.Tactic.Linarith
import Mathlib.Tactic.NormNum
import Mathlib.Tactic.Positivity

/-!
# Binary64 arithmetic

The finite numbers of the format are the integers of at most 53 bits times a power of two, each
kept as its rational value with the proof that it is one. An operation rounds the exact result to
the nearest of them, to the even one of two (`round`), and from the midpoint between the largest one
and `2 ^ 1024` on to an infinity. A zero has no sign here: nothing below tells the two apart.

A result is finite exactly when the exact one is below that midpoint (`round_of_lt`,
`round_of_not_lt`), which `sub_finite_iff` and `div_finite_iff` say of the operands.
-/

namespace Binary64
set_option autoImplicit false

/-- An integer of at most 53 bits times a power of two. -/
def Representable (q : ℚ) : Prop :=
  ∃ m e : ℤ, |m| < 2 ^ 53 ∧ -1074 ≤ e ∧ e ≤ 971 ∧ q = m * 2 ^ e

/-- A finite number. -/
abbrev Finite : Type := { q : ℚ // Representable q }

/-- The least magnitude that rounds to an infinity. -/
def overflow : ℚ := 2 ^ (1024 : ℤ) - 2 ^ (970 : ℤ)

theorem overflow_lt : overflow < 2 ^ (1024 : ℤ) := sub_lt_self _ (by positivity)

theorem overflow_eq : overflow = (2 ^ 53 - 1 / 2) * 2 ^ (971 : ℤ) := by
  have two : (2 : ℚ) ≠ 0 := by norm_num
  have top : (2 : ℚ) ^ (1024 : ℤ) = 2 ^ (53 : ℤ) * 2 ^ (971 : ℤ) := zpow_add₀ two 53 971
  have half : (2 : ℚ) ^ (970 : ℤ) = 2 ^ (-1 : ℤ) * 2 ^ (971 : ℤ) := by
    rw [← zpow_add₀ two, show (-1 + 971 : ℤ) = 970 by norm_num]
  rw [overflow, top, half, ← sub_mul]
  norm_num

/-! ## Rounding -/

/-- The nearest integer, the even one of two. -/
def roundHalfEven (q : ℚ) : ℤ :=
  if q - ⌊q⌋ < 1 / 2 then ⌊q⌋
  else if 1 / 2 < q - ⌊q⌋ then ⌊q⌋ + 1
  else if ⌊q⌋ % 2 = 0 then ⌊q⌋ else ⌊q⌋ + 1

theorem roundHalfEven_near (q : ℚ) : |(roundHalfEven q : ℚ) - q| ≤ 1 / 2 := by
  have below := Int.floor_le q
  have above := Int.lt_floor_add_one q
  rw [abs_le]
  unfold roundHalfEven
  split_ifs <;> push_cast <;> constructor <;> linarith

/-- The exponent of the last bit that is kept of `q`. -/
def lastBit (q : ℚ) : ℤ := max (Int.log 2 |q| - 52) (-1074)

/-- `q` rounded to its last bit. -/
def nearest (q : ℚ) : ℚ := roundHalfEven (q / 2 ^ lastBit q) * 2 ^ lastBit q

theorem scaled_lt (q : ℚ) : |q / 2 ^ lastBit q| < 2 ^ 53 := by
  have pos : (0 : ℚ) < 2 ^ lastBit q := by positivity
  rw [abs_div, abs_of_pos pos, div_lt_iff₀ pos]
  calc |q| < (2 : ℕ) ^ (Int.log 2 |q| + 1) := Int.lt_zpow_succ_log_self (by norm_num) _
    _ ≤ 2 ^ (53 + lastBit q) := by
      push_cast
      exact zpow_le_zpow_right₀ (by norm_num) (by unfold lastBit; omega)
    _ = 2 ^ 53 * 2 ^ lastBit q := by rw [zpow_add₀ (by norm_num)]; norm_num

theorem lastBit_le {q : ℚ} (small : |q| < overflow) : lastBit q ≤ 971 := by
  unfold lastBit
  apply max_le _ (by norm_num)
  rcases eq_or_lt_of_le (abs_nonneg q) with zero | pos
  · rw [← zero, Int.log_zero_right]
    norm_num
  · have below : |q| < ((2 : ℕ) : ℚ) ^ (1024 : ℤ) := by
      rw [Nat.cast_ofNat]
      exact lt_trans small overflow_lt
    have := (Int.lt_zpow_iff_log_lt (by norm_num) pos).mp below
    omega

theorem abs_rounded_le (q : ℚ) : |roundHalfEven (q / 2 ^ lastBit q)| ≤ 2 ^ 53 := by
  have near := abs_le.mp (roundHalfEven_near (q / 2 ^ lastBit q))
  have scaled := abs_lt.mp (scaled_lt q)
  rw [abs_le]
  constructor
  · have : (-2 ^ 53 - 1 : ℚ) < roundHalfEven (q / 2 ^ lastBit q) := by linarith
    have : (-2 ^ 53 - 1 : ℤ) < roundHalfEven (q / 2 ^ lastBit q) := by exact_mod_cast this
    omega
  · have : (roundHalfEven (q / 2 ^ lastBit q) : ℚ) < 2 ^ 53 + 1 := by linarith
    have : roundHalfEven (q / 2 ^ lastBit q) < 2 ^ 53 + 1 := by exact_mod_cast this
    omega

/-- In the last binade the rounded integer has 53 bits. -/
theorem abs_rounded_lt {q : ℚ} (small : |q| < overflow) (top : lastBit q = 971) :
    |roundHalfEven (q / 2 ^ lastBit q)| < 2 ^ 53 := by
  have near := abs_le.mp (roundHalfEven_near (q / 2 ^ lastBit q))
  have pos : (0 : ℚ) < 2 ^ lastBit q := by positivity
  have scaled : |q / 2 ^ lastBit q| < 2 ^ 53 - 1 / 2 := by
    rw [abs_div, abs_of_pos pos, div_lt_iff₀ pos, top, ← overflow_eq]
    exact small
  rw [abs_lt] at scaled ⊢
  constructor
  · have : (-2 ^ 53 : ℚ) < roundHalfEven (q / 2 ^ lastBit q) := by linarith
    exact_mod_cast this
  · have : (roundHalfEven (q / 2 ^ lastBit q) : ℚ) < 2 ^ 53 := by linarith
    exact_mod_cast this

/-- A carry into the next power of two. -/
theorem representable_carry {m e : ℤ} (full : |m| = 2 ^ 53) (least : -1074 ≤ e) (last : e ≤ 970) :
    Representable (m * 2 ^ e) := by
  refine ⟨m / 2, e + 1, ?_, by omega, by omega, ?_⟩
  · rcases abs_eq (by norm_num) |>.mp full with rfl | rfl <;> norm_num
  · rw [zpow_add₀ (by norm_num)]
    rcases abs_eq (by norm_num) |>.mp full with rfl | rfl <;> norm_num <;> ring

/-- A rounded number below the midpoint is in the format. -/
theorem representable_nearest {q : ℚ} (small : |q| < overflow) : Representable (nearest q) := by
  have last := lastBit_le small
  have least : -1074 ≤ lastBit q := le_max_right _ _
  rcases lt_or_eq_of_le (abs_rounded_le q) with fits | full
  · exact ⟨_, _, fits, least, last, rfl⟩
  · refine representable_carry full least ?_
    by_contra above
    have := abs_rounded_lt small (by omega)
    omega

/-! ## Numbers -/

/-- A number of the format that is not a NaN. -/
inductive Number where
  | negInf
  | finite (x : Finite)
  | posInf
deriving DecidableEq

namespace Number

/-- Where the number stands in the order. -/
def place : Number → WithBot (WithTop ℚ)
  | negInf => ⊥
  | finite x => ((x.val : WithTop ℚ) : WithBot (WithTop ℚ))
  | posInf => ((⊤ : WithTop ℚ) : WithBot (WithTop ℚ))

theorem place_injective : Function.Injective place := by
  intro a b same
  cases a <;> cases b <;> simp_all [place, Subtype.ext_iff]

instance : LinearOrder Number := LinearOrder.lift' place place_injective

instance : Zero Number := ⟨finite ⟨0, 0, 0, by norm_num⟩⟩

theorem zero_lt_finite {x : Finite} : 0 < finite x ↔ 0 < x.val := by
  show place (finite ⟨0, _⟩) < place (finite x) ↔ _
  simp only [place, WithBot.coe_lt_coe, WithTop.coe_lt_coe]

theorem not_zero_lt_negInf : ¬ 0 < negInf := by
  show ¬ place (finite ⟨0, _⟩) < place negInf
  exact not_lt_bot

/-- The rational rounded to the format. -/
def round (q : ℚ) : Number :=
  if small : |q| < overflow then finite ⟨nearest q, representable_nearest small⟩
  else if 0 < q then posInf else negInf

theorem round_of_lt {q : ℚ} (small : |q| < overflow) :
    round q = finite ⟨nearest q, representable_nearest small⟩ := dif_pos small

theorem round_of_not_lt {q : ℚ} (large : ¬ |q| < overflow) (x : Finite) : round q ≠ finite x := by
  rw [round, dif_neg large]
  split <;> rintro ⟨⟩

/-! ## Operations

An operation without a number as its result gives `none`, which is the NaN, and so does what is
computed from it. -/

/-- `x + y`. -/
def add : Number → Number → Option Number
  | finite x, finite y => some (round (x.val + y.val))
  | posInf, negInf => none
  | negInf, posInf => none
  | posInf, _ => some posInf
  | _, posInf => some posInf
  | negInf, _ => some negInf
  | _, negInf => some negInf

/-- `-x`. -/
def neg : Number → Number
  | finite ⟨q, representable⟩ =>
    finite ⟨-q, by
      obtain ⟨m, e, small, rest⟩ := representable
      exact ⟨-m, e, by rwa [abs_neg], rest.1, rest.2.1, by rw [rest.2.2]; push_cast; ring⟩⟩
  | posInf => negInf
  | negInf => posInf

/-- `x - y`. -/
def sub (x y : Number) : Option Number := x.add y.neg

/-- `x * y`. -/
def mul : Number → Number → Option Number
  | finite x, finite y => some (round (x.val * y.val))
  | x, y =>
    if x = 0 ∨ y = 0 then none
    else if (0 < x) = (0 < y) then some posInf
    else some negInf

/-- `x / y`, where `y` is not zero. -/
def div : Number → Number → Option Number
  | finite x, finite y => some (round (x.val / y.val))
  | finite _, _ => some 0
  | x, finite y => if (0 < x) = (0 < finite y) then some posInf else some negInf
  | _, _ => none

theorem sub_finite (x y : Finite) : (finite x).sub (finite y) = some (round (x.val - y.val)) := by
  rw [sub_eq_add_neg]
  rfl

theorem sub_finite_iff {x y : Number} {z : Finite} :
    x.sub y = some (finite z) ↔ ∃ a b : Finite, x = finite a ∧ y = finite b ∧
      ∃ small : |a.val - b.val| < overflow, z = ⟨nearest (a.val - b.val), representable_nearest small⟩ := by
  constructor
  · intro same
    cases x with
    | finite a =>
      cases y with
      | finite b =>
        rw [sub_finite, Option.some.injEq] at same
        by_cases small : |a.val - b.val| < overflow
        · rw [round_of_lt small, finite.injEq] at same
          exact ⟨a, b, rfl, rfl, small, same.symm⟩
        · exact absurd same (round_of_not_lt small z)
      | negInf => cases same
      | posInf => cases same
    | negInf => cases y <;> cases same
    | posInf => cases y <;> cases same
  · rintro ⟨a, b, rfl, rfl, small, rfl⟩
    rw [sub_finite, round_of_lt small]

/-- A quotient that is finite has a finite dividend. -/
theorem finite_of_div {x y z : Number} (pos : 0 < y) (same : x.div y = some z) (fin : ∃ a, z = finite a) :
    ∃ a, x = finite a := by
  obtain ⟨a, rfl⟩ := fin
  cases x with
  | finite x => exact ⟨x, rfl⟩
  | negInf =>
    cases y with
    | finite y =>
      simp only [div] at same
      split at same <;> cases same
    | _ => cases same
  | posInf =>
    cases y with
    | finite y =>
      simp only [div] at same
      split at same <;> cases same
    | _ => cases same

theorem div_finite_iff {x y : Finite} (pos : 0 < y.val) :
    (∃ z, (finite x).div (finite y) = some (finite z)) ↔ |x.val| < overflow * y.val := by
  have scaled : |x.val / y.val| < overflow ↔ |x.val| < overflow * y.val := by
    rw [abs_div, abs_of_pos pos, div_lt_iff₀ pos]
  rw [← scaled]
  constructor
  · rintro ⟨z, same⟩
    by_contra large
    exact round_of_not_lt large z (Option.some.inj same)
  · intro small
    exact ⟨_, congrArg some (round_of_lt small)⟩

end Number
end Binary64
