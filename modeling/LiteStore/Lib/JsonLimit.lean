import LiteStore.Lib.Json

/-!
# Integers that are too long

An integer literal is converted as soon as it ends, and a conversion may have a limit on the number
of digits. A reader with such a limit stops there (`readsLong`), even at a text that is no JSON: an
unfinished fraction or exponent does not belong to the literal, and what comes later is not read.
-/

namespace Json
set_option autoImplicit false

/-- How many digits are converted as an integer when a number ends. -/
def convertedDigits (phase : NumPhase) (read : List Char) : Nat :=
  match phase with
  | .zero | .int | .dot => read.countP Char.isDigit
  | .exp | .expSign => if '.' ∈ read then 0 else read.countP Char.isDigit
  | .minus | .frac | .expDigits => 0

/-- An integer of more than `limit` digits ends before the next character, or at the end. -/
def endsLong (limit : Nat) (s : State) (next : Option Char) : Bool :=
  match s.mode with
  | .number phase read =>
    (next.bind (numberStep phase)).isNone && decide (limit < convertedDigits phase read)
  | _ => false

/-- The reader comes to the end of an integer of more than `limit` digits. -/
def readsLong (limit : Nat) (s : State) : List Char → Bool
  | [] => endsLong limit s none
  | c :: text => endsLong limit s (some c) || readsLong limit (step s c) text

example : ["[1, 1234 x", "-1234.", "1234e+", "1234.5", "[x, 1234", "\"1234\""].map
    (fun text => readsLong 3 start text.toList) = [true, true, true, false, false, false] := by decide

end Json
