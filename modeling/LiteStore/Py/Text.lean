import Mathlib.Algebra.Group.Nat.Defs
import Mathlib.Data.List.Infix

/-!
# Text functions of the standard library

`int(text)`, `fnmatch.fnmatch(name, pattern)` on a POSIX system, the white
space they and `str.strip` agree on, and `str.replace`, computed on lists of
characters. Python's decimal digits are those of Unicode category `Nd`.
-/

namespace Py
set_option autoImplicit false

/-- `c.isspace()`. -/
def isSpace (c : Char) : Bool :=
  let n := c.toNat
  (0x09 ≤ n && n ≤ 0x0d) || (0x1c ≤ n && n ≤ 0x20) || n = 0x85 || n = 0xa0 || n = 0x1680 ||
    (0x2000 ≤ n && n ≤ 0x200a) || n = 0x2028 || n = 0x2029 || n = 0x202f || n = 0x205f || n = 0x3000

/-- `text.strip()`. -/
def strip (text : List Char) : List Char :=
  ((text.dropWhile isSpace).reverse.dropWhile isSpace).reverse

/-- `text.replace(old, new)` for an `old` of one character. -/
def replaceChar (old : Char) (new text : List Char) : List Char :=
  text.flatMap fun c => if c = old then new else [c]

/-- Only its own code makes a line feed. -/
theorem newline_ofNat {n : Nat} (h : Char.ofNat n = '\n') : n = 10 := by
  have code : (Char.ofNat n).toNat = n ∨ (Char.ofNat n).toNat = 0 := by
    by_cases valid : n.isValidChar
    · rw [Char.ofNat, dif_pos valid]
      exact .inl rfl
    · rw [Char.ofNat, dif_neg valid]
      exact .inr rfl
  rw [h, show '\n'.toNat = 10 from rfl] at code
  omega

/-! ## `int(text)` -/

/-- The white space of C's `isspace`, which `int` skips around ASCII text. -/
def isAsciiSpace (c : Char) : Bool := (0x09 ≤ c.toNat && c.toNat ≤ 0x0d) || c = ' '

/-- The zero of each run of ten decimal digits. -/
def digitZeros : List Nat :=
  [0x30, 0x660, 0x6f0, 0x7c0, 0x966, 0x9e6, 0xa66, 0xae6, 0xb66, 0xbe6, 0xc66, 0xce6, 0xd66, 0xde6,
   0xe50, 0xed0, 0xf20, 0x1040, 0x1090, 0x17e0, 0x1810, 0x1946, 0x19d0, 0x1a80, 0x1a90, 0x1b50,
   0x1bb0, 0x1c40, 0x1c50, 0xa620, 0xa8d0, 0xa900, 0xa9d0, 0xa9f0, 0xaa50, 0xabf0, 0xff10, 0x104a0,
   0x10d30, 0x11066, 0x110f0, 0x11136, 0x111d0, 0x112f0, 0x11450, 0x114d0, 0x11650, 0x116c0,
   0x11730, 0x118e0, 0x11950, 0x11c50, 0x11d50, 0x11da0, 0x16a60, 0x16ac0, 0x16b50, 0x1d7ce,
   0x1d7d8, 0x1d7e2, 0x1d7ec, 0x1d7f6, 0x1e140, 0x1e2f0, 0x1e950, 0x1fbf0]

/-- `unicodedata.decimal(c)`. -/
def decimal? (c : Char) : Option Nat :=
  (digitZeros.find? fun first => decide (first ≤ c.toNat) && decide (c.toNat < first + 10)).map
    fun first => c.toNat - first

/-- `int` first turns non-ASCII spaces and digits into ASCII ones and gives up, with a
character no number has, on anything else. -/
def toAsciiDigits (c : Char) : Char :=
  if c.toNat < 0x7f then c
  else if isSpace c then ' '
  else match decimal? c with
    | some d => Char.ofNat (0x30 + d)
    | none => '?'

/-- A digit of the transformed text. -/
def asciiDigit? (c : Char) : Option Nat := if c.isDigit then some (c.toNat - 0x30) else none

/-- Digits after a first one, with single underscores between digits. -/
def moreDigits : List Char → Option (List Nat)
  | [] => some []
  | '_' :: c :: rest => do return (← asciiDigit? c) :: (← moreDigits rest)
  | c :: rest => do return (← asciiDigit? c) :: (← moreDigits rest)

/-- A nonempty run of digits. -/
def digits? : List Char → Option (List Nat)
  | [] => none
  | c :: rest => do return (← asciiDigit? c) :: (← moreDigits rest)

/-- The conversion limit on decimal digits (`sys.int_info.default_max_str_digits`). -/
def maxStrDigits : Nat := 4300

/-- The number of a run of digits; too many of them are a `ValueError`. -/
def natural? (text : List Char) : Option Nat := do
  let digits ← digits? text
  if digits.length ≤ maxStrDigits then some (digits.foldl (fun n d => 10 * n + d) 0) else none

/-- `int(text)`; `none` is its `ValueError`. -/
def int? (text : String) : Option Int :=
  let chars := text.toList
  let ascii := if chars.all fun c => c.toNat < 0x80 then chars else chars.map toAsciiDigits
  let body := ((ascii.dropWhile isAsciiSpace).reverse.dropWhile isAsciiSpace).reverse
  match body with
  | '-' :: digits => (natural? digits).map fun n => -(n : Int)
  | '+' :: digits => (natural? digits).map fun n => (n : Int)
  | digits => (natural? digits).map fun n => (n : Int)

example : int? " -1_000 " = some (-1000) := by decide

/-- `str(n)`; `none` is its `ValueError`. -/
def str? (n : Int) : Option String :=
  if n.natAbs < 10 ^ maxStrDigits then some (toString n) else none

/-! ## `fnmatch` -/

/-- One element of a glob pattern. -/
inductive GlobItem where
  /-- `*` -/
  | star
  /-- `?` -/
  | any
  | literal (c : Char)
  /-- `[seq]` or `[!seq]`, as the ranges of `seq`. -/
  | oneOf (negated : Bool) (ranges : List (Char × Char))
deriving DecidableEq, Repr

/-- The ranges of a bracket expression. -/
def classRanges : List Char → List (Char × Char)
  | [] => []
  | lo :: '-' :: hi :: rest => (lo, hi) :: classRanges rest
  | c :: rest => (c, c) :: classRanges rest

/-- Split the text after `[` at its closing `]`, which may not be the first character
of the expression. -/
def splitClass (text : List Char) : Option (Bool × List Char × List Char) :=
  let (negated, text) := match text with
    | '!' :: rest => (true, rest)
    | _ => (false, text)
  let (first, text) := match text with
    | ']' :: rest => ([']'], rest)
    | _ => ([], text)
  match text.span fun c => c ≠ ']' with
  | (body, _ :: rest) => some (negated, first ++ body, rest)
  | (_, []) => none

/-- What is left of a bracket expression without the reversed ranges in front of it, which `translate` drops. -/
def dropReversed : List Char → List Char
  | lo :: '-' :: hi :: rest => if lo ≤ hi then lo :: '-' :: hi :: rest else dropReversed rest
  | text => text

/-- The bracket expression `[seq]` or `[!seq]`. A `!` in front of what is left of `seq` negates it too, and the
hyphen behind that `!` is one of the characters. -/
def bracketItem (negated : Bool) (seq : List Char) : GlobItem :=
  match negated, dropReversed seq with
  | false, '!' :: '-' :: c :: rest => .oneOf true (('-', '-') :: (c, c) :: classRanges rest)
  | false, '!' :: rest => .oneOf true (classRanges rest)
  | negated, _ => .oneOf negated (classRanges seq)

/-- The elements of a pattern of at most `fuel` characters. -/
def globItems : Nat → List Char → List GlobItem
  | 0, _ => []
  | _, [] => []
  | fuel + 1, '*' :: rest => .star :: globItems fuel rest
  | fuel + 1, '?' :: rest => .any :: globItems fuel rest
  | fuel + 1, '[' :: rest =>
    match splitClass rest with
    | some (negated, seq, rest) => bracketItem negated seq :: globItems fuel rest
    | none => .literal '[' :: globItems fuel rest
  | fuel + 1, c :: rest => .literal c :: globItems fuel rest

/-- Match a text against the elements of a pattern. -/
def globMatch : List GlobItem → List Char → Bool
  | [], text => text.isEmpty
  | .star :: items, text => text.tails.any fun rest => globMatch items rest
  | .any :: items, _ :: text => globMatch items text
  | .literal c :: items, c' :: text => decide (c = c') && globMatch items text
  | .oneOf negated ranges :: items, c :: text =>
    (negated != ranges.any fun r => decide (r.1 ≤ c) && decide (c ≤ r.2)) && globMatch items text
  | _ :: _, [] => false

/-- `fnmatch.fnmatch(name, pattern)`. -/
def fnmatch (name pattern : String) : Bool :=
  globMatch (globItems pattern.length pattern.toList) name.toList

example : fnmatch "c" "[b-a!x]" = true := by decide

end Py
