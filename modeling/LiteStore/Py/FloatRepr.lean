import LiteStore.Lib.Binary64

/-!
# `repr` of a float

The shortest decimal that rounds to the float, and of several the nearest. From `1e16` on and below
`1e-4` it is written with an exponent. A zero is `0.0`, since a sum that is zero has no sign.
-/

namespace Py
set_option autoImplicit false
open Binary64

/-- Where the decimal point of a positive number stands: in front of its first digit, times this power of
ten. -/
def decimalPoint (q : ℚ) : ℤ := Int.log 10 q + 1

/-- The numbers of `n` digits next to `q`, the nearest first, in units of a power of ten. -/
def decimals (q : ℚ) (n : Nat) : List (ℤ × ℤ) :=
  let unit := decimalPoint q - n
  let scaled := q / 10 ^ unit
  [(roundHalfEven scaled, unit), (⌊scaled⌋, unit), (⌈scaled⌉, unit)]

/-- The shortest of them that round to `q`. Seventeen digits are always enough. -/
def shortestDecimal (q : ℚ) : ℤ × ℤ :=
  (((List.range 17).flatMap fun n => decimals q (n + 1)).find? fun (m, unit) =>
    nearest (m * 10 ^ unit) = q).getD (0, 0)

/-- Digits with the decimal point after the first `point` of them. -/
def pointText (digits : List Char) (point : ℤ) : List Char :=
  if point ≤ 0 then '0' :: '.' :: (List.replicate (-point).toNat '0' ++ digits)
  else if digits.length ≤ point then
    digits ++ (List.replicate (point - digits.length).toNat '0' ++ ['.', '0'])
  else digits.take point.toNat ++ '.' :: digits.drop point.toNat

/-- Digits with a point after the first of them and an exponent of at least two digits. -/
def exponentText (digits : List Char) (exponent : ℤ) : List Char :=
  let power := Nat.toDigits 10 exponent.natAbs
  digits.take 1 ++ (if digits.length ≤ 1 then [] else '.' :: digits.drop 1) ++
    ('e' :: (if exponent < 0 then '-' else '+') :: (List.replicate (2 - power.length) '0' ++ power))

/-- `repr(x)` of a positive `x`. -/
def positiveRepr (q : ℚ) : List Char :=
  let (m, unit) := shortestDecimal q
  let written := Nat.toDigits 10 m.toNat
  let digits := (written.reverse.dropWhile fun c => c = '0').reverse
  let point := written.length + unit
  if -4 < point ∧ point ≤ 16 then pointText digits point else exponentText digits (point - 1)

/-- `str(x)` of a float; `none` is the NaN. -/
def strFloat : Option Number → String
  | none => "nan"
  | some .posInf => "inf"
  | some .negInf => "-inf"
  | some (.finite x) =>
    if x.val = 0 then "0.0"
    else if x.val < 0 then String.ofList ('-' :: positiveRepr (-x.val))
    else String.ofList (positiveRepr x.val)

example : [1 / 10, 5, 1 / 3, -123456789 / 1000, 10 ^ 23, 1 / 10 ^ 5].map
    (fun q : ℚ => strFloat (some (.round q))) =
    ["0.1", "5.0", "0.3333333333333333", "-123456.789", "1e+23", "1e-05"] := by decide +kernel

/-! ## The text is one line -/

theorem not_mem_toDigits (n : Nat) : '\n' ∉ Nat.toDigits 10 n := by
  intro m
  exact absurd (Nat.isDigit_of_mem_toDigits (by decide) (by decide) m) (by decide)

theorem not_mem_replicate_zero (n : Nat) : '\n' ∉ List.replicate n '0' := by
  intro m
  exact absurd (List.eq_of_mem_replicate m) (by decide)

section Digits

variable {digits : List Char}

theorem not_mem_pointText (free : '\n' ∉ digits) (point : ℤ) : '\n' ∉ pointText digits point := by
  have front : '\n' ∉ digits.take point.toNat := fun m => free (List.mem_of_mem_take m)
  have back : '\n' ∉ digits.drop point.toNat := fun m => free (List.mem_of_mem_drop m)
  unfold pointText
  split
  · simp [free]
  split
  · simp [free]
  · simp [front, back]

theorem not_mem_exponentText (free : '\n' ∉ digits) (exponent : ℤ) : '\n' ∉ exponentText digits exponent := by
  have front : '\n' ∉ digits.take 1 := fun m => free (List.mem_of_mem_take m)
  have back : '\n' ∉ digits.drop 1 := fun m => free (List.mem_of_mem_drop m)
  have power := not_mem_toDigits exponent.natAbs
  have zeros := not_mem_replicate_zero (2 - (Nat.toDigits 10 exponent.natAbs).length)
  have sign : '\n' ≠ if exponent < 0 then '-' else '+' := by split <;> decide
  have fraction : '\n' ∉ if digits.length ≤ 1 then [] else '.' :: digits.drop 1 := by
    split
    · exact List.not_mem_nil
    · simpa using back
  simp only [exponentText, List.mem_append, List.mem_cons, not_or]
  exact ⟨⟨front, fraction⟩, by decide, sign, zeros, power⟩

end Digits

theorem not_mem_positiveRepr (q : ℚ) : '\n' ∉ positiveRepr q := by
  have free : '\n' ∉
      ((Nat.toDigits 10 (shortestDecimal q).1.toNat).reverse.dropWhile fun c => c = '0').reverse := by
    intro m
    have m := (List.dropWhile_sublist _).subset (List.mem_reverse.mp m)
    exact not_mem_toDigits _ (List.mem_reverse.mp m)
  unfold positiveRepr
  dsimp only
  split
  · exact not_mem_pointText free _
  · exact not_mem_exponentText free _

theorem not_mem_strFloat (x : Option Number) : '\n' ∉ (strFloat x).toList := by
  match x with
  | none => decide
  | some .posInf => decide
  | some .negInf => decide
  | some (.finite x) =>
    unfold strFloat
    dsimp only
    split
    · decide
    split
    · rw [String.toList_ofList, List.mem_cons, not_or]
      exact ⟨by decide, not_mem_positiveRepr _⟩
    · rw [String.toList_ofList]
      exact not_mem_positiveRepr _

end Py
