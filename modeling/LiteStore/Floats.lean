import LiteStore.Lib.Binary64
import LiteStore.Time

/-!
# Float timestamps

The timestamp arithmetic in Python floats, which raises: an integer that is too large for a float
has no conversion, and `math.floor` and `int` refuse infinities and the NaN. The divisor is the
length of a tick, which is positive.

`InRange` is when the tick of a timestamp is defined: nothing on the way to it overflows.
-/

namespace LiteStore
set_option autoImplicit false
open Binary64

/-- `math.floor(x)`; `none` is the NaN. -/
def floatFloor : Option Number → Except PyError Int
  | none => .error .valueError
  | some (.finite x) => .ok ⌊x.val⌋
  | some _ => .error .overflowError

/-- `int(x)`. -/
def floatInt : Option Number → Except PyError Int
  | none => .error .valueError
  | some (.finite x) => .ok (truncate x.val)
  | some _ => .error .overflowError

/-- The conversion of an integer to a float. -/
def intFloat (n : Int) : Except PyError Finite :=
  if small : |(n : ℚ)| < overflow then .ok ⟨nearest n, representable_nearest small⟩
  else .error .overflowError

/-- The float `0.1`. -/
def floatTenth : Finite :=
  ⟨3602879701896397 / 2 ^ 55, 3602879701896397, -55, by norm_num, by norm_num, by norm_num, by norm_num⟩

instance : Timestamp Number where
  tenth := .finite floatTenth
  tenth_pos := by decide +kernel
  tenthSince now earlier :=
    match now.sub earlier with
    | none => false
    | some d => decide (.finite floatTenth < d)

/-- Float time. -/
instance : TimeArith (Except PyError) Number where
  addSeconds t n := do
    let seconds ← intFloat n
    match t.add (.finite seconds) with
    | none => .error .valueError
    | some sum => .ok sum
  floorTicks t origin tick := floatFloor ((t.sub origin).bind fun d => d.div tick)
  afterTicks origin n tick := do
    let ticks ← intFloat n
    -- From a NaN the tick that is computed next has no floor.
    match ((Number.finite ticks).mul tick).bind fun d => origin.add d with
    | none => .error .valueError
    | some sum => .ok sum
  wholeSeconds d now := floatInt (d.sub now)

example : TimeArith.floorTicks (m := Except PyError) (Number.round 1) (Number.round 0)
    (.finite floatTenth) = .ok 10 := by decide +kernel

/-- The tick of `t` counted from `origin` is defined: the difference does not overflow, and neither
does its quotient. -/
def InRange (t origin tick : Number) : Prop :=
  ∃ x y : Finite, t = .finite x ∧ origin = .finite y ∧ |x.val - y.val| < overflow ∧
    ∀ z, tick = .finite z → |nearest (x.val - y.val)| < overflow * z.val

theorem inRange_finite {x y : Finite} {tick : Number} : InRange (.finite x) (.finite y) tick ↔
    |x.val - y.val| < overflow ∧ ∀ z, tick = .finite z → |nearest (x.val - y.val)| < overflow * z.val := by
  constructor
  · rintro ⟨_, _, ⟨⟩, ⟨⟩, rest⟩
    exact rest
  · exact fun rest => ⟨x, y, rfl, rfl, rest⟩

instance (t origin tick : Number) : Decidable (InRange t origin tick) :=
  match t, origin, tick with
  | .finite x, .finite y, .finite z => decidable_of_iff
      (|x.val - y.val| < overflow ∧ |nearest (x.val - y.val)| < overflow * z.val)
      (inRange_finite.trans (and_congr_right fun _ =>
        ⟨fun each => each z rfl, fun small _ same => by cases same; exact small⟩)).symm
  | .finite x, .finite y, .negInf => decidable_of_iff (|x.val - y.val| < overflow)
      (inRange_finite.trans (and_iff_left (by rintro _ ⟨⟩))).symm
  | .finite x, .finite y, .posInf => decidable_of_iff (|x.val - y.val| < overflow)
      (inRange_finite.trans (and_iff_left (by rintro _ ⟨⟩))).symm
  | .negInf, _, _ => isFalse (by rintro ⟨_, _, ⟨⟩, _⟩)
  | .posInf, _, _ => isFalse (by rintro ⟨_, _, ⟨⟩, _⟩)
  | .finite _, .negInf, _ => isFalse (by rintro ⟨_, _, _, ⟨⟩, _⟩)
  | .finite _, .posInf, _ => isFalse (by rintro ⟨_, _, _, ⟨⟩, _⟩)

theorem floatFloor_ok {x : Option Number} : (∃ n, floatFloor x = .ok n) ↔ ∃ z, x = some (.finite z) := by
  constructor
  · rintro ⟨n, same⟩
    rcases x with _ | _ | x | _
    · cases same
    · cases same
    · exact ⟨x, rfl⟩
    · cases same
  · rintro ⟨z, rfl⟩
    exact ⟨_, rfl⟩

/-- **When a tick is computed.** -/
theorem floorTicks_ok {t origin tick : Number} (pos : 0 < tick) :
    (∃ n, TimeArith.floorTicks (m := Except PyError) t origin tick = .ok n) ↔ InRange t origin tick := by
  show (∃ n, floatFloor ((t.sub origin).bind fun d => d.div tick) = .ok n) ↔ _
  rw [floatFloor_ok]
  constructor
  · rintro ⟨z, same⟩
    obtain ⟨d, difference, quotient⟩ := Option.bind_eq_some_iff.mp same
    obtain ⟨d, rfl⟩ := Number.finite_of_div pos quotient ⟨z, rfl⟩
    obtain ⟨x, y, rfl, rfl, small, rfl⟩ := Number.sub_finite_iff.mp difference
    refine ⟨x, y, rfl, rfl, small, ?_⟩
    rintro k rfl
    have bounded := (Number.div_finite_iff (Number.zero_lt_finite.mp pos)).mp ⟨z, quotient⟩
    exact bounded
  · rintro ⟨x, y, rfl, rfl, small, scaled⟩
    rw [Number.sub_finite, Number.round_of_lt small, Option.bind_some]
    cases tick with
    | finite k =>
      have bounded := scaled k rfl
      exact (Number.div_finite_iff (x := ⟨_, representable_nearest small⟩)
        (Number.zero_lt_finite.mp pos)).mpr bounded
    | negInf => exact absurd pos Number.not_zero_lt_negInf
    | posInf => exact ⟨_, rfl⟩

/-- When the seconds that are left are computed, and what they are. -/
theorem wholeSeconds_ok {d now : Number} {n : Int} :
    TimeArith.wholeSeconds (m := Except PyError) d now = .ok n ↔
      ∃ x y : Finite, d = .finite x ∧ now = .finite y ∧ |x.val - y.val| < overflow ∧
        n = truncate (nearest (x.val - y.val)) := by
  show floatInt (d.sub now) = .ok n ↔ _
  constructor
  · intro same
    rcases difference : d.sub now with _ | _ | z | _
    · rw [difference] at same; cases same
    · rw [difference] at same; cases same
    · obtain ⟨x, y, rfl, rfl, small, rfl⟩ := Number.sub_finite_iff.mp difference
      rw [difference] at same
      exact ⟨x, y, rfl, rfl, small, (Except.ok.inj same).symm⟩
    · rw [difference] at same; cases same
  · rintro ⟨x, y, rfl, rfl, small, rfl⟩
    rw [Number.sub_finite, Number.round_of_lt small]
    rfl

/-- **When a deadline is a finite number**, and which one. -/
theorem addSeconds_ok {t : Number} {n : Int} {x : Finite} :
    TimeArith.addSeconds (m := Except PyError) t n = .ok (.finite x) ↔
      |(n : ℚ)| < overflow ∧ ∃ c : Finite, t = .finite c ∧ Number.round (c.val + nearest n) = .finite x := by
  simp only [TimeArith.addSeconds, intFloat]
  split
  · rename_i small
    rw [and_iff_right small]
    cases t with
    | finite c =>
      simp only [Number.finite.injEq, exists_eq_left']
      constructor
      · exact fun same => Except.ok.inj same
      · exact fun same => congrArg Except.ok same
    | negInf =>
      constructor
      · rintro ⟨⟩
      · rintro ⟨c, ⟨⟩, _⟩
    | posInf =>
      constructor
      · rintro ⟨⟩
      · rintro ⟨c, ⟨⟩, _⟩
  · rename_i large
    constructor
    · rintro ⟨⟩
    · rintro ⟨small, _⟩
      exact absurd small large

end LiteStore
