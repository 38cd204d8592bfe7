import Mathlib.Data.List.Infix

/-!
# JSON text

`dumps` writes a value as Python's `json.dumps` does with `ensure_ascii`, and `loads` reads a
text as `json.loads` does. The reader is a pushdown machine that takes one
character at a time: the stack holds the open arrays and objects, the mode what
may come next. A text cut off at any point is then a state of the machine, and
what follows it is read from there. A surrogate without its partner has no
character and reads as U+FFFD.
-/

namespace Json
set_option autoImplicit false

/-- A JSON value. A number with a fraction or an exponent keeps its text, as do the
three constants Python adds; the fields of an object are in the order written. -/
inductive Value where
  | null
  | bool (b : Bool)
  | int (n : Int)
  | float (text : List Char)
  | str (s : String)
  | arr (items : List Value)
  | obj (fields : List (String × Value))

/-! ## Writing -/

/-- Four hexadecimal digits. -/
def hex4 (n : Nat) : List Char :=
  [Nat.digitChar (n / 4096 % 16), Nat.digitChar (n / 256 % 16), Nat.digitChar (n / 16 % 16),
   Nat.digitChar (n % 16)]

/-- A character inside a string, in ASCII. -/
def escapeChar (c : Char) : List Char :=
  if c = '"' then ['\\', '"']
  else if c = '\\' then ['\\', '\\']
  else if c = '\n' then ['\\', 'n']
  else if c = '\r' then ['\\', 'r']
  else if c = '\t' then ['\\', 't']
  else if c = '\x08' then ['\\', 'b']
  else if c = '\x0c' then ['\\', 'f']
  else if 0x20 ≤ c.toNat ∧ c.toNat ≤ 0x7e then [c]
  else if c.toNat < 0x10000 then '\\' :: 'u' :: hex4 c.toNat
  else
    '\\' :: 'u' :: (hex4 (0xd800 + (c.toNat - 0x10000) / 0x400) ++
      '\\' :: 'u' :: hex4 (0xdc00 + (c.toNat - 0x10000) % 0x400))

/-- The rest of a string literal after its opening quote. -/
def dumpsChars (text : List Char) : List Char := text.flatMap escapeChar ++ ['"']

def dumpsString (s : String) : List Char := '"' :: dumpsChars s.toList

def dumpsInt : Int → List Char
  | .ofNat n => Nat.toDigits 10 n
  | .negSucc n => '-' :: Nat.toDigits 10 (n + 1)

mutual

/-- `json.dumps(value, ensure_ascii=True)`. -/
def dumps : Value → List Char
  | .null => ['n', 'u', 'l', 'l']
  | .bool true => ['t', 'r', 'u', 'e']
  | .bool false => ['f', 'a', 'l', 's', 'e']
  | .int n => dumpsInt n
  | .float text => text
  | .str s => dumpsString s
  | .arr [] => ['[', ']']
  | .arr (v :: items) => '[' :: (dumps v ++ dumpsItems items)
  | .obj [] => ['{', '}']
  | .obj (f :: fields) => '{' :: (dumpsField f ++ dumpsFields fields)

/-- The items after the first, and the closing bracket. -/
def dumpsItems : List Value → List Char
  | [] => [']']
  | v :: items => ',' :: ' ' :: (dumps v ++ dumpsItems items)

def dumpsField : String × Value → List Char
  | (k, v) => dumpsString k ++ ':' :: ' ' :: dumps v

/-- The fields after the first, and the closing brace. -/
def dumpsFields : List (String × Value) → List Char
  | [] => ['}']
  | f :: fields => ',' :: ' ' :: (dumpsField f ++ dumpsFields fields)

end

/-! ## Reading -/

/-- An open array or object: what it holds so far, the latest first, and the key whose
value is being read. -/
inductive Frame where
  | items (done : List Value)
  | fields (done : List (String × Value))
  | field (done : List (String × Value)) (key : String)

/-- How far a number has come. -/
inductive NumPhase where
  | minus | zero | int | dot | frac | exp | expSign | expDigits
deriving DecidableEq

/-- What may come next. Inside a string, `pending` is a high surrogate that waits for its
partner. -/
inductive Mode where
  | value
  /-- After an opening bracket. -/
  | first
  /-- After an opening brace. -/
  | member
  | key
  | colon (key : String)
  /-- After a value of an array or an object. -/
  | next
  | string (forKey : Bool) (read : List Char) (pending : Option Nat)
  | escape (forKey : Bool) (read : List Char) (pending : Option Nat)
  | hex (forKey : Bool) (read : List Char) (pending : Option Nat) (left code : Nat)
  | number (phase : NumPhase) (read : List Char)
  | literal (rest : List Char) (v : Value)
  | done (v : Value)
  | failed

/-- The machine's state. -/
structure State where
  stack : List Frame
  mode : Mode

def start : State := ⟨[], .value⟩

def fail : State := ⟨[], .failed⟩

def isWhitespace (c : Char) : Bool := c = ' ' || c = '\t' || c = '\n' || c = '\r'

/-- A value is complete. -/
def complete (stack : List Frame) (v : Value) : State :=
  match stack with
  | [] => ⟨[], .done v⟩
  | .items done :: stack => ⟨.items (v :: done) :: stack, .next⟩
  | .field done key :: stack => ⟨.fields ((key, v) :: done) :: stack, .next⟩
  | .fields _ :: _ => fail

def closeItems : List Frame → State
  | .items done :: stack => complete stack (.arr done.reverse)
  | _ => fail

def closeFields : List Frame → State
  | .fields done :: stack => complete stack (.obj done.reverse)
  | _ => fail

/-- The first character of a value. -/
def beginValue (stack : List Frame) (c : Char) : State :=
  if c = '"' then ⟨stack, .string false [] none⟩
  else if c = '{' then ⟨.fields [] :: stack, .member⟩
  else if c = '[' then ⟨.items [] :: stack, .first⟩
  else if c = 'n' then ⟨stack, .literal ['u', 'l', 'l'] .null⟩
  else if c = 't' then ⟨stack, .literal ['r', 'u', 'e'] (.bool true)⟩
  else if c = 'f' then ⟨stack, .literal ['a', 'l', 's', 'e'] (.bool false)⟩
  else if c = 'N' then ⟨stack, .literal ['a', 'N'] (.float ['N', 'a', 'N'])⟩
  else if c = 'I' then ⟨stack, .literal ['n', 'f', 'i', 'n', 'i', 't', 'y']
    (.float ['I', 'n', 'f', 'i', 'n', 'i', 't', 'y'])⟩
  else if c = '-' then ⟨stack, .number .minus ['-']⟩
  else if c = '0' then ⟨stack, .number .zero ['0']⟩
  else if c.isDigit then ⟨stack, .number .int [c]⟩
  else fail

/-- A pending surrogate that found no partner. -/
def flush (read : List Char) : Option Nat → List Char
  | none => read
  | some _ => '\ufffd' :: read

/-- The closing quote. -/
def endString (stack : List Frame) (forKey : Bool) (read : List Char) : State :=
  if forKey then ⟨stack, .colon (String.ofList read.reverse)⟩
  else complete stack (.str (String.ofList read.reverse))

/-- The character a one-letter escape stands for. -/
def unescape? (c : Char) : Option Char :=
  if c = '"' ∨ c = '\\' ∨ c = '/' then some c
  else if c = 'b' then some '\x08'
  else if c = 'f' then some '\x0c'
  else if c = 'n' then some '\n'
  else if c = 'r' then some '\r'
  else if c = 't' then some '\t'
  else none

def hexValue? (c : Char) : Option Nat :=
  if c.isDigit then some (c.toNat - 0x30)
  else if 'a' ≤ c ∧ c ≤ 'f' then some (c.toNat - 0x57)
  else if 'A' ≤ c ∧ c ≤ 'F' then some (c.toNat - 0x37)
  else none

/-- The end of a numeric escape: a character, or half of one. -/
def endHex (read : List Char) (pending : Option Nat) (code : Nat) : List Char × Option Nat :=
  if 0xdc00 ≤ code ∧ code ≤ 0xdfff then
    match pending with
    | some high => (Char.ofNat (0x10000 + (high - 0xd800) * 0x400 + (code - 0xdc00)) :: read, none)
    | none => ('\ufffd' :: read, none)
  else if 0xd800 ≤ code ∧ code < 0xdc00 then (flush read pending, some code)
  else (Char.ofNat code :: flush read pending, none)

/-- The next phase of a number, if the character continues it. -/
def numberStep (phase : NumPhase) (c : Char) : Option NumPhase :=
  match phase with
  | .minus => if c = '0' then some .zero else if c.isDigit then some .int else none
  | .zero => if c = '.' then some .dot else if c = 'e' ∨ c = 'E' then some .exp else none
  | .int =>
    if c.isDigit then some .int else if c = '.' then some .dot
    else if c = 'e' ∨ c = 'E' then some .exp else none
  | .dot => if c.isDigit then some .frac else none
  | .frac => if c.isDigit then some .frac else if c = 'e' ∨ c = 'E' then some .exp else none
  | .exp =>
    if c = '+' ∨ c = '-' then some .expSign else if c.isDigit then some .expDigits else none
  | .expSign => if c.isDigit then some .expDigits else none
  | .expDigits => if c.isDigit then some .expDigits else none

/-- The integer of a number's text. -/
def intOf : List Char → Int
  | '-' :: digits => -(Nat.ofDigitChars 10 digits 0 : Int)
  | digits => (Nat.ofDigitChars 10 digits 0 : Int)

/-- A number ends where no character continues it. -/
def settle (s : State) : State :=
  match s.mode with
  | .number .zero read | .number .int read => complete s.stack (.int (intOf read.reverse))
  | .number .frac read | .number .expDigits read => complete s.stack (.float read.reverse)
  | .number _ _ => fail
  | _ => s

/-- One character outside a number. -/
def plainStep (s : State) (c : Char) : State :=
  match s.mode with
  | .value => if isWhitespace c then s else beginValue s.stack c
  | .first =>
    if isWhitespace c then s else if c = ']' then closeItems s.stack else beginValue s.stack c
  | .member =>
    if isWhitespace c then s else if c = '}' then closeFields s.stack
    else if c = '"' then ⟨s.stack, .string true [] none⟩ else fail
  | .key =>
    if isWhitespace c then s else if c = '"' then ⟨s.stack, .string true [] none⟩ else fail
  | .colon key =>
    if isWhitespace c then s
    else if c = ':' then
      match s.stack with
      | .fields done :: stack => ⟨.field done key :: stack, .value⟩
      | _ => fail
    else fail
  | .next =>
    if isWhitespace c then s
    else if c = ',' then
      match s.stack with
      | .items _ :: _ => ⟨s.stack, .value⟩
      | .fields _ :: _ => ⟨s.stack, .key⟩
      | _ => fail
    else if c = ']' then closeItems s.stack
    else if c = '}' then closeFields s.stack
    else fail
  | .string forKey read pending =>
    if c = '"' then endString s.stack forKey (flush read pending)
    else if c = '\\' then ⟨s.stack, .escape forKey read pending⟩
    else if c.toNat < 0x20 then fail
    else ⟨s.stack, .string forKey (c :: flush read pending) none⟩
  | .escape forKey read pending =>
    if c = 'u' then ⟨s.stack, .hex forKey read pending 4 0⟩
    else match unescape? c with
      | some c => ⟨s.stack, .string forKey (c :: flush read pending) none⟩
      | none => fail
  | .hex forKey read pending left code =>
    match hexValue? c with
    | none => fail
    | some digit =>
      if left ≤ 1 then
        let (read, pending) := endHex read pending (code * 16 + digit)
        ⟨s.stack, .string forKey read pending⟩
      else ⟨s.stack, .hex forKey read pending (left - 1) (code * 16 + digit)⟩
  | .literal rest v =>
    match rest with
    | [] => fail
    | [c'] => if c = c' then complete s.stack v else fail
    | c' :: rest => if c = c' then ⟨s.stack, .literal rest v⟩ else fail
  | .number _ _ => fail
  | .done _ => if isWhitespace c then s else fail
  | .failed => s

/-- One character. -/
def step (s : State) (c : Char) : State :=
  match s.mode with
  | .number phase read =>
    match numberStep phase c with
    | some phase => ⟨s.stack, .number phase (c :: read)⟩
    | none =>
      if phase = .minus ∧ c = 'I' then ⟨s.stack, .literal ['n', 'f', 'i', 'n', 'i', 't', 'y']
        (.float ['-', 'I', 'n', 'f', 'i', 'n', 'i', 't', 'y'])⟩
      else plainStep (settle s) c
  | _ => plainStep s c

def run (s : State) (text : List Char) : State := text.foldl step s

/-- The value read when the text ends here. -/
def finish (s : State) : Option Value :=
  match settle s with
  | ⟨[], .done v⟩ => some v
  | _ => none

/-- `json.loads(text)`; `none` is its `JSONDecodeError`. -/
def loads (text : List Char) : Option Value := finish (run start text)

/-- The value of a key of an object: the last one given to it. -/
def get? (fields : List (String × Value)) (key : String) : Option Value := fields.reverse.lookup key

end Json
