import LiteStore.Lib.Json
import Mathlib.Tactic.IntervalCases

/-!
# Runs of the JSON machine

Reading what `dumps` wrote completes exactly that value, whatever is open around
it (`run_dumps`), so `loads` inverts `dumps`. An object cut off anywhere leaves
something open; from there another object only opens more or fails, so the two
together are no JSON text (`loads_torn`, `loads_torn_append`). Floats are left
out: their text is kept as it was read.
-/

namespace Json
set_option autoImplicit false

theorem run_append (s : State) (text more : List Char) : run s (text ++ more) = run (run s text) more :=
  List.foldl_append

@[simp] theorem run_nil (s : State) : run s [] = s := rfl

@[simp] theorem run_cons (s : State) (c : Char) (text : List Char) :
    run s (c :: text) = run (step s c) text := rfl

/-! ## Strings -/

/-- Inside a string. -/
abbrev inString (stack : List Frame) (forKey : Bool) (read : List Char) : State :=
  ⟨stack, .string forKey read none⟩

theorem hexValue_digitChar : ∀ d < 16, hexValue? (Nat.digitChar d) = some d := by decide

/-- Four hexadecimal digits after `\u`. -/
theorem run_hex4 (stack : List Frame) (forKey : Bool) (read : List Char) (pending : Option Nat)
    {n : Nat} (small : n < 0x10000) :
    run ⟨stack, .escape forKey read pending⟩ ('u' :: hex4 n) =
      ⟨stack, .string forKey (endHex read pending n).1 (endHex read pending n).2⟩ := by
  have digit (d : Nat) := hexValue_digitChar (d % 16) (Nat.mod_lt d (by decide))
  have whole : ((n / 4096 % 16 * 16 + n / 256 % 16) * 16 + n / 16 % 16) * 16 + n % 16 = n := by omega
  simp only [hex4, run_cons, run_nil, step, plainStep, if_true, digit]
  simp [whole]

theorem toNat_bounds (c : Char) : c.toNat < 0xd800 ∨ (0xdfff < c.toNat ∧ c.toNat < 0x110000) := by
  have valid : c.toNat.isValidChar := c.valid
  unfold Nat.isValidChar at valid
  omega

/-- How a character is written inside a string: after a backslash, as itself, or by its code
in one or two groups of four digits. -/
inductive Escaped (c : Char) : Prop
  | short (letter : Char) (text : escapeChar c = ['\\', letter]) (code : letter ≠ 'u')
      (back : unescape? letter = some c) (visible : 0x20 ≤ letter.toNat ∧ letter.toNat ≤ 0x7e)
  | plain (text : escapeChar c = [c]) (quote : c ≠ '"') (backslash : c ≠ '\\')
      (visible : 0x20 ≤ c.toNat ∧ c.toNat ≤ 0x7e)
  | coded (text : escapeChar c = '\\' :: 'u' :: hex4 c.toNat) (small : c.toNat < 0x10000)
  | paired (text : escapeChar c = '\\' :: 'u' :: (hex4 (0xd800 + (c.toNat - 0x10000) / 0x400) ++
      '\\' :: 'u' :: hex4 (0xdc00 + (c.toNat - 0x10000) % 0x400))) (large : 0x10000 ≤ c.toNat)

theorem escapeChar_cases (c : Char) : Escaped c := by
  have marked (special letter : Char) (text : escapeChar special = ['\\', letter])
      (code : letter ≠ 'u') (back : unescape? letter = some special)
      (visible : 0x20 ≤ letter.toNat ∧ letter.toNat ≤ 0x7e) (same : c = special) : Escaped c :=
    same ▸ .short letter text code back visible
  by_cases quote : c = '"'
  · exact marked '"' '"' rfl (by decide) rfl (by decide) quote
  by_cases backslash : c = '\\'
  · exact marked '\\' '\\' rfl (by decide) rfl (by decide) backslash
  by_cases newline : c = '\n'
  · exact marked '\n' 'n' rfl (by decide) rfl (by decide) newline
  by_cases back : c = '\r'
  · exact marked '\r' 'r' rfl (by decide) rfl (by decide) back
  by_cases tab : c = '\t'
  · exact marked '\t' 't' rfl (by decide) rfl (by decide) tab
  by_cases erase : c = '\x08'
  · exact marked '\x08' 'b' rfl (by decide) rfl (by decide) erase
  by_cases page : c = '\x0c'
  · exact marked '\x0c' 'f' rfl (by decide) rfl (by decide) page
  have unmarked : escapeChar c = if 0x20 ≤ c.toNat ∧ c.toNat ≤ 0x7e then [c]
      else if c.toNat < 0x10000 then '\\' :: 'u' :: hex4 c.toNat
      else '\\' :: 'u' :: (hex4 (0xd800 + (c.toNat - 0x10000) / 0x400) ++
        '\\' :: 'u' :: hex4 (0xdc00 + (c.toNat - 0x10000) % 0x400)) := by
    rw [escapeChar, if_neg quote, if_neg backslash, if_neg newline, if_neg back, if_neg tab,
      if_neg erase, if_neg page]
  by_cases visible : 0x20 ≤ c.toNat ∧ c.toNat ≤ 0x7e
  · exact .plain (by rw [unmarked, if_pos visible]) quote backslash visible
  by_cases small : c.toNat < 0x10000
  · exact .coded (by rw [unmarked, if_neg visible, if_pos small]) small
  · exact .paired (by rw [unmarked, if_neg visible, if_neg small]) (by omega)

/-- Reading back one escaped character. -/
theorem run_escapeChar (stack : List Frame) (forKey : Bool) (read : List Char) (c : Char) :
    run (inString stack forKey read) (escapeChar c) = inString stack forKey (c :: read) := by
  have valid := toNat_bounds c
  have enter (rest : List Char) (read : List Char) (pending : Option Nat) :
      run ⟨stack, .string forKey read pending⟩ ('\\' :: rest) =
        run ⟨stack, .escape forKey read pending⟩ rest := rfl
  cases escapeChar_cases c with
  | short letter text code back _ =>
    rw [text, enter]
    simp only [run_cons, run_nil, step, plainStep, if_neg code, back, flush]
  | plain text quote backslash visible =>
    have low : ¬ c.toNat < 0x20 := by omega
    rw [text]
    simp only [run_cons, run_nil, step, plainStep, if_neg quote, if_neg backslash, if_neg low, flush]
  | coded text small =>
    have whole : endHex read none c.toNat = (c :: read, none) := by
      have lowHalf : ¬ (0xdc00 ≤ c.toNat ∧ c.toNat ≤ 0xdfff) := by omega
      have highHalf : ¬ (0xd800 ≤ c.toNat ∧ c.toNat < 0xdc00) := by omega
      rw [endHex, if_neg lowHalf, if_neg highHalf, Char.ofNat_toNat, flush]
    rw [text, enter, run_hex4 _ _ _ _ small, whole]
  | paired text large =>
    have high : endHex read none (0xd800 + (c.toNat - 0x10000) / 0x400) =
        (read, some (0xd800 + (c.toNat - 0x10000) / 0x400)) := by
      rw [endHex, if_neg (by omega), if_pos (by omega), flush]
    have low : endHex read (some (0xd800 + (c.toNat - 0x10000) / 0x400))
        (0xdc00 + (c.toNat - 0x10000) % 0x400) = (c :: read, none) := by
      have whole : 0x10000 + (0xd800 + (c.toNat - 0x10000) / 0x400 - 0xd800) * 0x400 +
          (0xdc00 + (c.toNat - 0x10000) % 0x400 - 0xdc00) = c.toNat := by omega
      rw [endHex, if_pos (by omega)]
      simp only [whole, Char.ofNat_toNat]
    rw [text, enter, ← List.cons_append, run_append, run_hex4 _ _ _ _ (by omega), high, enter,
      run_hex4 _ _ _ _ (by omega), low]

/-- Reading the rest of a string literal. -/
theorem run_dumpsChars (stack : List Frame) (forKey : Bool) (text read : List Char) :
    run (inString stack forKey read) (dumpsChars text) =
      endString stack forKey (text.reverse ++ read) := by
  induction text generalizing read with
  | nil => rfl
  | cons c text ih =>
    rw [dumpsChars, List.flatMap_cons, List.append_assoc, run_append, run_escapeChar,
      List.reverse_cons, List.append_assoc]
    exact ih (c :: read)

/-! ## Numbers -/

theorem settle_complete (stack : List Frame) (v : Value) : settle (complete stack v) = complete stack v := by
  unfold complete
  split <;> rfl

/-- A digit of a number beyond its first. -/
theorem run_digits (stack : List Frame) {digits : List Char} (all : ∀ c ∈ digits, c.isDigit = true)
    (read : List Char) :
    run ⟨stack, .number .int read⟩ digits = ⟨stack, .number .int (digits.reverse ++ read)⟩ := by
  induction digits generalizing read with
  | nil => rfl
  | cons c digits ih =>
    have digit : c.isDigit = true := all c (by simp)
    rw [run_cons, step]
    simp only [numberStep, digit, if_true]
    rw [ih (fun c member => all c (by simp [member]))]
    simp

/-- The first digit of a positive number is not zero. -/
theorem toDigits_pos {n : Nat} (pos : 0 < n) :
    ∃ c digits, Nat.toDigits 10 n = c :: digits ∧ c.isDigit = true ∧ c ≠ '0' ∧
      ∀ c ∈ digits, c.isDigit = true := by
  induction n using Nat.strong_induction_on with
  | _ n ih =>
    by_cases small : n < 10
    · refine ⟨n.digitChar, [], Nat.toDigits_of_lt_base small, ?_, ?_, by simp⟩
      · interval_cases n <;> decide
      · interval_cases n <;> decide
    · obtain ⟨c, digits, eq, digit, nonzero, rest⟩ := ih (n / 10) (by omega) (by omega)
      refine ⟨c, digits ++ [(n % 10).digitChar], ?_, digit, nonzero, ?_⟩
      · rw [Nat.toDigits_of_base_le (by decide) (by omega), eq]
        rfl
      · intro c' member
        rcases List.mem_append.mp member with member | member
        · exact rest c' member
        · rw [List.mem_singleton.mp member]
          have bound : n % 10 < 10 := Nat.mod_lt n (by decide)
          interval_cases n % 10 <;> decide

theorem beginValue_digit (stack : List Frame) {c : Char} (digit : c.isDigit = true) (nonzero : c ≠ '0') :
    beginValue stack c = ⟨stack, .number .int [c]⟩ := by
  have other (d : Char) (no : d.isDigit = false) : c ≠ d := by
    rintro rfl
    rw [digit] at no
    cases no
  rw [beginValue, if_neg (other '"' rfl), if_neg (other '{' rfl), if_neg (other '[' rfl),
    if_neg (other 'n' rfl), if_neg (other 't' rfl), if_neg (other 'f' rfl), if_neg (other 'N' rfl),
    if_neg (other 'I' rfl), if_neg (other '-' rfl), if_neg nonzero, if_pos digit]

theorem not_whitespace_digit {c : Char} (digit : c.isDigit = true) : isWhitespace c = false := by
  have other (d : Char) (no : d.isDigit = false) : c ≠ d := by
    rintro rfl
    rw [digit] at no
    cases no
  simp [isWhitespace, other ' ' rfl, other '\t' rfl, other '\n' rfl, other '\r' rfl]

/-- Reading a written integer. -/
theorem run_dumpsInt (stack : List Frame) (n : Int) :
    settle (run ⟨stack, .value⟩ (dumpsInt n)) = complete stack (.int n) := by
  have digits (c : Char) (rest : List Char) (digit : c.isDigit = true) :
      intOf (c :: rest) = (Nat.ofDigitChars 10 (c :: rest) 0 : Int) := by
    unfold intOf
    split
    · rename_i equal
      cases equal
      cases digit
    · rfl
  cases n with
  | ofNat n =>
    rcases Nat.eq_zero_or_pos n with rfl | pos
    · rfl
    · obtain ⟨c, rest, text, digit, nonzero, all⟩ := toDigits_pos pos
      rw [dumpsInt, text, run_cons, step]
      simp only [plainStep, not_whitespace_digit digit, Bool.false_eq_true, if_false,
        beginValue_digit stack digit nonzero]
      rw [run_digits stack all, settle]
      simp only [List.reverse_append, List.reverse_reverse, List.reverse_cons, List.reverse_nil,
        List.nil_append, List.singleton_append]
      rw [digits c rest digit, ← text, Nat.ofDigitChars_ten_toDigits]
      rfl
  | negSucc n =>
    obtain ⟨c, rest, text, digit, nonzero, all⟩ := toDigits_pos (Nat.succ_pos n)
    have first : step ⟨stack, .value⟩ '-' = ⟨stack, .number .minus ['-']⟩ := rfl
    have second : step ⟨stack, .number .minus ['-']⟩ c = ⟨stack, .number .int [c, '-']⟩ := by
      simp only [step, numberStep, if_neg nonzero, digit, if_true]
    rw [dumpsInt, text, run_cons, first, run_cons, second, run_digits stack all, settle]
    simp only [List.reverse_append, List.reverse_reverse, List.reverse_cons, List.reverse_nil,
      List.nil_append, List.cons_append]
    rw [intOf, ← text, Nat.ofDigitChars_ten_toDigits]
    rfl

/-! ## Values -/

mutual

/-- The value holds no float. -/
def Exact : Value → Prop
  | .float _ => False
  | .arr items => ExactItems items
  | .obj fields => ExactFields fields
  | _ => True

def ExactItems : List Value → Prop
  | [] => True
  | v :: items => Exact v ∧ ExactItems items

def ExactField : String × Value → Prop
  | (_, v) => Exact v

def ExactFields : List (String × Value) → Prop
  | [] => True
  | f :: fields => ExactField f ∧ ExactFields fields

end

/-- A character that continues no number ends it. -/
theorem step_eq_settle (s : State) {c : Char} (ends : ∀ phase, numberStep phase c = none)
    (other : c ≠ 'I') : step s c = plainStep (settle s) c := by
  obtain ⟨stack, mode⟩ := s
  cases mode with
  | number phase read => simp only [step, ends, other, and_false, if_false]
  | _ => rfl

theorem ends_comma : ∀ phase, numberStep phase ',' = none := by rintro ⟨⟩ <;> decide

theorem ends_bracket : ∀ phase, numberStep phase ']' = none := by rintro ⟨⟩ <;> decide

theorem ends_brace : ∀ phase, numberStep phase '}' = none := by rintro ⟨⟩ <;> decide

theorem dumpsInt_cons (n : Int) :
    ∃ c text, dumpsInt n = c :: text ∧ isWhitespace c = false ∧ c ≠ ']' := by
  cases n with
  | ofNat n =>
    rcases Nat.eq_zero_or_pos n with rfl | pos
    · exact ⟨'0', [], rfl, rfl, by decide⟩
    · obtain ⟨c, text, eq, digit, _⟩ := toDigits_pos pos
      refine ⟨c, text, eq, not_whitespace_digit digit, ?_⟩
      rintro rfl
      cases digit
  | negSucc n => exact ⟨'-', _, rfl, rfl, by decide⟩

/-- A written value starts neither with white space nor with the end of an array. -/
theorem dumps_cons {v : Value} (exact : Exact v) :
    ∃ c text, dumps v = c :: text ∧ isWhitespace c = false ∧ c ≠ ']' := by
  cases v with
  | null => exact ⟨'n', _, by rw [dumps], rfl, by decide⟩
  | bool b =>
    cases b with
    | false => exact ⟨'f', _, by rw [dumps], rfl, by decide⟩
    | true => exact ⟨'t', _, by rw [dumps], rfl, by decide⟩
  | int n => rw [dumps]; exact dumpsInt_cons n
  | float text => exact exact.elim
  | str s => exact ⟨'"', _, by rw [dumps, dumpsString], rfl, by decide⟩
  | arr items =>
    cases items with
    | nil => exact ⟨'[', _, by rw [dumps], rfl, by decide⟩
    | cons v items => exact ⟨'[', _, by rw [dumps], rfl, by decide⟩
  | obj fields =>
    cases fields with
    | nil => exact ⟨'{', _, by rw [dumps], rfl, by decide⟩
    | cons f fields => exact ⟨'{', _, by rw [dumps], rfl, by decide⟩

/-- The first item of an array is read like any value. -/
theorem run_first {v : Value} (exact : Exact v) (stack : List Frame) (text : List Char) :
    run ⟨stack, .first⟩ (dumps v ++ text) = run ⟨stack, .value⟩ (dumps v ++ text) := by
  obtain ⟨c, rest, eq, space, close⟩ := dumps_cons exact
  have first : step ⟨stack, .first⟩ c = step ⟨stack, .value⟩ c := by
    simp only [step, plainStep, space, Bool.false_eq_true, if_false, if_neg close]
  rw [eq, List.cons_append, run_cons, run_cons, first]

/-- A key and the colon and space after it. -/
theorem run_key (stack : List Frame) (done : List (String × Value)) {mode : Mode}
    (expects : mode = .key ∨ mode = .member) (k : String) (text : List Char) :
    run ⟨.fields done :: stack, mode⟩ (dumpsString k ++ ':' :: ' ' :: text) =
      run ⟨.field done k :: stack, .value⟩ text := by
  have quote : step ⟨.fields done :: stack, mode⟩ '"' = inString (.fields done :: stack) true [] := by
    rcases expects with rfl | rfl <;> rfl
  have named : String.ofList (k.toList.reverse ++ []).reverse = k := by
    rw [List.append_nil, List.reverse_reverse, String.ofList_toList]
  rw [dumpsString, List.cons_append, run_cons, quote, run_append, run_dumpsChars]
  simp only [endString, if_true, named]
  rfl

mutual

/-- **Reading a written value** completes it, whatever is open around it. -/
theorem run_dumps : ∀ v, Exact v → ∀ stack,
    settle (run ⟨stack, .value⟩ (dumps v)) = complete stack v
  | .null, _, stack => by rw [dumps]; exact settle_complete stack _
  | .bool true, _, stack => by rw [dumps]; exact settle_complete stack _
  | .bool false, _, stack => by rw [dumps]; exact settle_complete stack _
  | .int n, _, stack => by rw [dumps]; exact run_dumpsInt stack n
  | .str s, _, stack => by
    have quote : step ⟨stack, .value⟩ '"' = inString stack false [] := rfl
    have read : String.ofList (s.toList.reverse ++ []).reverse = s := by
      rw [List.append_nil, List.reverse_reverse, String.ofList_toList]
    rw [dumps, dumpsString, run_cons, quote, run_dumpsChars]
    simp only [endString, Bool.false_eq_true, if_false, read]
    exact settle_complete stack _
  | .arr [], _, stack => by rw [dumps]; exact settle_complete stack _
  | .arr (v :: items), exact, stack => by
    have bracket : step ⟨stack, .value⟩ '[' = ⟨.items [] :: stack, .first⟩ := rfl
    rw [dumps, run_cons, bracket, run_first exact.1, run_append]
    exact run_dumpsItems items exact.2 stack [v] _ (run_dumps v exact.1 (.items [] :: stack))
  | .obj [], _, stack => by rw [dumps]; exact settle_complete stack _
  | .obj (f :: fields), exact, stack => by
    have brace : step ⟨stack, .value⟩ '{' = ⟨.fields [] :: stack, .member⟩ := rfl
    rw [dumps, run_cons, brace, run_append]
    exact run_dumpsFields fields exact.2 stack [f] _
      (run_dumpsField f exact.1 stack [] (Or.inr rfl))

theorem run_dumpsItems : ∀ items, ExactItems items → ∀ stack done s,
    settle s = ⟨.items done :: stack, .next⟩ →
    settle (run s (dumpsItems items)) = complete stack (.arr (done.reverse ++ items))
  | [], _, stack, done, s, settled => by
    rw [dumpsItems, run_cons, run_nil, step_eq_settle s ends_bracket (by decide), settled,
      List.append_nil]
    exact settle_complete stack _
  | v :: items, exact, stack, done, s, settled => by
    have comma : step s ',' = ⟨.items done :: stack, .value⟩ := by
      rw [step_eq_settle s ends_comma (by decide), settled]
      rfl
    have space : step ⟨.items done :: stack, .value⟩ ' ' = ⟨.items done :: stack, .value⟩ := rfl
    have rest := run_dumpsItems items exact.2 stack (v :: done) _
      (run_dumps v exact.1 (.items done :: stack))
    rw [dumpsItems, run_cons, comma, run_cons, space, run_append, rest]
    simp

theorem run_dumpsField : ∀ f, ExactField f → ∀ stack done {mode : Mode},
    (mode = .key ∨ mode = .member) →
    settle (run ⟨.fields done :: stack, mode⟩ (dumpsField f)) = ⟨.fields (f :: done) :: stack, .next⟩
  | (k, v), exact, stack, done, mode, expects => by
    rw [dumpsField, run_key stack done expects, run_dumps v exact]
    rfl

theorem run_dumpsFields : ∀ fields, ExactFields fields → ∀ stack done s,
    settle s = ⟨.fields done :: stack, .next⟩ →
    settle (run s (dumpsFields fields)) = complete stack (.obj (done.reverse ++ fields))
  | [], _, stack, done, s, settled => by
    rw [dumpsFields, run_cons, run_nil, step_eq_settle s ends_brace (by decide), settled,
      List.append_nil]
    exact settle_complete stack _
  | f :: fields, exact, stack, done, s, settled => by
    have comma : step s ',' = ⟨.fields done :: stack, .key⟩ := by
      rw [step_eq_settle s ends_comma (by decide), settled]
      rfl
    have space : step ⟨.fields done :: stack, .key⟩ ' ' = ⟨.fields done :: stack, .key⟩ := rfl
    have rest := run_dumpsFields fields exact.2 stack (f :: done) _
      (run_dumpsField f exact.1 stack done (Or.inl rfl))
    rw [dumpsFields, run_cons, comma, run_cons, space, run_append, rest]
    simp

end

/-- **Round trip.** -/
theorem loads_dumps {v : Value} (exact : Exact v) : loads (dumps v) = some v := by
  rw [loads, finish, start, run_dumps v exact]
  rfl

/-! ## Written text is printable ASCII -/

/-- A printable ASCII character. -/
def Printable (c : Char) : Prop := 0x20 ≤ c.toNat ∧ c.toNat ≤ 0x7e

instance (c : Char) : Decidable (Printable c) := inferInstanceAs (Decidable (_ ∧ _))

theorem digitChar_printable : ∀ d < 16, Printable (Nat.digitChar d) := by decide

theorem hex4_printable (n : Nat) : ∀ c ∈ hex4 n, Printable c := by
  have digit (d : Nat) := digitChar_printable (d % 16) (Nat.mod_lt d (by decide))
  simp only [hex4, List.mem_cons, List.not_mem_nil, or_false, forall_eq_or_imp, forall_eq]
  exact ⟨digit _, digit _, digit _, digit _⟩

/-- The characters of a written-out text can be checked one by one. -/
theorem forall_printable {text : List Char} (all : text.all (fun c => decide (Printable c)) = true) :
    ∀ c ∈ text, Printable c := fun c member => of_decide_eq_true (List.all_eq_true.mp all c member)

theorem escapeChar_printable (c : Char) : ∀ d ∈ escapeChar c, Printable d := by
  have marks : Printable '\\' ∧ Printable 'u' := by decide
  cases escapeChar_cases c with
  | short letter text _ _ visible =>
    rw [text, List.forall_mem_cons, List.forall_mem_singleton]
    exact ⟨marks.1, visible⟩
  | plain text _ _ visible =>
    rw [text, List.forall_mem_singleton]
    exact visible
  | coded text _ =>
    rw [text, List.forall_mem_cons, List.forall_mem_cons]
    exact ⟨marks.1, marks.2, hex4_printable _⟩
  | paired text _ =>
    rw [text, List.forall_mem_cons, List.forall_mem_cons, List.forall_mem_append,
      List.forall_mem_cons, List.forall_mem_cons]
    exact ⟨marks.1, marks.2, hex4_printable _, marks.1, marks.2, hex4_printable _⟩

theorem dumpsString_printable (s : String) : ∀ c ∈ dumpsString s, Printable c := by
  simp only [dumpsString, dumpsChars, List.mem_cons, List.mem_append, List.mem_flatMap,
    List.not_mem_nil, or_false]
  rintro c (rfl | ⟨d, _, member⟩ | rfl)
  · decide
  · exact escapeChar_printable d c member
  · decide

theorem isDigit_printable {c : Char} (digit : c.isDigit = true) : Printable c := by
  simp only [Char.isDigit, Bool.and_eq_true, decide_eq_true_eq, ge_iff_le, UInt32.le_iff_toNat_le,
    Char.toNat_val, Char.reduceToNat] at digit
  unfold Printable
  omega

theorem dumpsInt_printable (n : Int) : ∀ c ∈ dumpsInt n, Printable c := by
  have digits (n : Nat) : ∀ c ∈ Nat.toDigits 10 n, Printable c := fun c member =>
    isDigit_printable (Nat.isDigit_of_mem_toDigits (by decide) (by decide) member)
  cases n with
  | ofNat n => exact digits n
  | negSucc n =>
    simp only [dumpsInt, List.mem_cons, forall_eq_or_imp]
    exact ⟨by decide, digits _⟩

mutual

/-- **A written value is printable ASCII**, on one line. -/
theorem dumps_printable : ∀ v, Exact v → ∀ c ∈ dumps v, Printable c
  | .null, _ => by rw [dumps]; exact forall_printable rfl
  | .bool true, _ => by rw [dumps]; exact forall_printable rfl
  | .bool false, _ => by rw [dumps]; exact forall_printable rfl
  | .int n, _ => by rw [dumps]; exact dumpsInt_printable n
  | .str s, _ => by rw [dumps]; exact dumpsString_printable s
  | .arr [], _ => by rw [dumps]; exact forall_printable rfl
  | .arr (v :: items), exact => by
    simp only [dumps, List.mem_cons, List.mem_append, or_imp, forall_and, forall_eq]
    exact ⟨by decide, dumps_printable v exact.1, dumpsItems_printable items exact.2⟩
  | .obj [], _ => by rw [dumps]; exact forall_printable rfl
  | .obj (f :: fields), exact => by
    simp only [dumps, List.mem_cons, List.mem_append, or_imp, forall_and, forall_eq]
    exact ⟨by decide, dumpsField_printable f exact.1, dumpsFields_printable fields exact.2⟩

theorem dumpsItems_printable : ∀ items, ExactItems items → ∀ c ∈ dumpsItems items, Printable c
  | [], _ => by rw [dumpsItems]; exact forall_printable rfl
  | v :: items, exact => by
    simp only [dumpsItems, List.mem_cons, List.mem_append, or_imp, forall_and, forall_eq]
    exact ⟨by decide, by decide, dumps_printable v exact.1, dumpsItems_printable items exact.2⟩

theorem dumpsField_printable : ∀ f, ExactField f → ∀ c ∈ dumpsField f, Printable c
  | (k, v), exact => by
    simp only [dumpsField, List.mem_cons, List.mem_append, or_imp, forall_and, forall_eq]
    exact ⟨dumpsString_printable k, by decide, by decide, dumps_printable v exact⟩

theorem dumpsFields_printable : ∀ fields, ExactFields fields → ∀ c ∈ dumpsFields fields, Printable c
  | [], _ => by rw [dumpsFields]; exact forall_printable rfl
  | f :: fields, exact => by
    simp only [dumpsFields, List.mem_cons, List.mem_append, or_imp, forall_and, forall_eq]
    exact ⟨by decide, by decide, dumpsField_printable f exact.1, dumpsFields_printable fields exact.2⟩

end

/-! ## Torn text -/

/-- Something is open, or the text has failed. -/
def Unfinished (s : State) : Prop := s.stack ≠ [] ∨ s.mode = .failed

theorem complete_unfinished {stack : List Frame} (nonempty : stack ≠ []) (v : Value) :
    Unfinished (complete stack v) := by
  unfold complete
  split
  · exact absurd rfl nonempty
  · exact Or.inl (List.cons_ne_nil _ _)
  · exact Or.inl (List.cons_ne_nil _ _)
  · exact Or.inr rfl

theorem settle_unfinished {s : State} (h : Unfinished s) : Unfinished (settle s) := by
  rcases h with nonempty | failed
  · unfold settle
    split
    · exact complete_unfinished nonempty _
    · exact complete_unfinished nonempty _
    · exact complete_unfinished nonempty _
    · exact complete_unfinished nonempty _
    · exact Or.inr rfl
    · exact Or.inl nonempty
  · have same : settle s = s := by simp only [settle, failed]
    rw [same]
    exact Or.inr failed

/-- No value is read while something is open. -/
theorem finish_of_settle {s : State} (h : Unfinished (settle s)) : finish s = none := by
  unfold finish
  split
  · rename_i settled
    rw [settled] at h
    rcases h with nonempty | failed
    · exact absurd rfl nonempty
    · cases failed
  · rfl

theorem run_failed {s : State} (failed : s.mode = .failed) (text : List Char) : run s text = s := by
  induction text with
  | nil => rfl
  | cons c text ih =>
    have same : step s c = s := by simp only [step, plainStep, failed]
    rw [run_cons, same, ih]

theorem finish_failed {s : State} (failed : s.mode = .failed) (text : List Char) :
    finish (run s text) = none := by
  rw [run_failed failed]
  exact finish_of_settle (settle_unfinished (Or.inr failed))

/-- After a finished value only white space may come. -/
theorem run_done {s : State} {v : Value} (done : s.mode = .done v) (text : List Char) {c : Char}
    (visible : isWhitespace c = false) : (run s (text ++ [c])).mode = .failed := by
  induction text with
  | nil => simp [step, plainStep, done, visible, fail]
  | cons c' text ih =>
    rw [List.cons_append, run_cons]
    by_cases space : isWhitespace c' = true
    · have same : step s c' = s := by simp only [step, plainStep, done, space, if_true]
      rw [same]
      exact ih
    · have failed : step s c' = fail := by simp only [step, plainStep, done, if_neg space]
      rw [failed, run_failed rfl]
      rfl

/-- Something is open, or the text has failed or holds a whole value; and the rest of a literal
opens nothing. -/
structure Opened (s : State) : Prop where
  state : s.stack ≠ [] ∨ s.mode = .failed ∨ ∃ v, s.mode = .done v
  letters : ∀ rest v, s.mode = .literal rest v → '{' ∉ rest

theorem fail_opened : Opened fail := ⟨Or.inr (Or.inl rfl), by rintro rest v ⟨⟩⟩

/-- Any mode but a literal, with something open. -/
theorem opened_of_stack {stack : List Frame} {mode : Mode} (nonempty : stack ≠ [])
    (plain : ∀ rest v, mode ≠ .literal rest v) : Opened ⟨stack, mode⟩ :=
  ⟨Or.inl nonempty, fun rest v literal => absurd literal (plain rest v)⟩

theorem opened_literal {stack : List Frame} (nonempty : stack ≠ []) {rest : List Char}
    (letters : '{' ∉ rest) (v : Value) : Opened ⟨stack, .literal rest v⟩ :=
  ⟨Or.inl nonempty, by rintro rest v ⟨⟩; exact letters⟩

theorem complete_opened (stack : List Frame) (v : Value) : Opened (complete stack v) := by
  unfold complete
  split
  · exact ⟨Or.inr (Or.inr ⟨v, rfl⟩), by rintro rest v ⟨⟩⟩
  · exact opened_of_stack (List.cons_ne_nil _ _) (by simp)
  · exact opened_of_stack (List.cons_ne_nil _ _) (by simp)
  · exact fail_opened

theorem closeItems_opened (stack : List Frame) : Opened (closeItems stack) := by
  unfold closeItems
  split
  · exact complete_opened _ _
  · exact fail_opened

theorem closeFields_opened (stack : List Frame) : Opened (closeFields stack) := by
  unfold closeFields
  split
  · exact complete_opened _ _
  · exact fail_opened

theorem opened_ite {p : Prop} [Decidable p] {s t : State} (h : Opened s) (h' : Opened t) :
    Opened (if p then s else t) := by
  split
  · exact h
  · exact h'

theorem beginValue_opened {stack : List Frame} (nonempty : stack ≠ []) (c : Char) :
    Opened (beginValue stack c) := by
  unfold beginValue
  refine opened_ite (opened_of_stack nonempty (by simp)) ?_
  refine opened_ite (opened_of_stack (List.cons_ne_nil _ _) (by simp)) ?_
  refine opened_ite (opened_of_stack (List.cons_ne_nil _ _) (by simp)) ?_
  refine opened_ite (opened_literal nonempty (by decide) _) ?_
  refine opened_ite (opened_literal nonempty (by decide) _) ?_
  refine opened_ite (opened_literal nonempty (by decide) _) ?_
  refine opened_ite (opened_literal nonempty (by decide) _) ?_
  refine opened_ite (opened_literal nonempty (by decide) _) ?_
  refine opened_ite (opened_of_stack nonempty (by simp)) ?_
  refine opened_ite (opened_of_stack nonempty (by simp)) ?_
  exact opened_ite (opened_of_stack nonempty (by simp)) fail_opened

theorem endString_opened {stack : List Frame} (nonempty : stack ≠ []) (forKey : Bool)
    (read : List Char) : Opened (endString stack forKey read) := by
  unfold endString
  split
  · exact opened_of_stack nonempty (by simp)
  · exact complete_opened _ _

theorem settle_opened {s : State} (h : Opened s) : Opened (settle s) := by
  unfold settle
  split
  · exact complete_opened _ _
  · exact complete_opened _ _
  · exact complete_opened _ _
  · exact complete_opened _ _
  · exact fail_opened
  · exact h

theorem plainStep_opened {s : State} (h : Opened s) (c : Char) : Opened (plainStep s c) := by
  obtain ⟨stack, mode⟩ := s
  have nonempty (live : mode ≠ .failed) (unfinished : ∀ v, mode ≠ .done v) : stack ≠ [] := by
    rcases h.state with nonempty | failed | ⟨v, done⟩
    · exact nonempty
    · exact absurd failed live
    · exact absurd done (unfinished v)
  cases mode with
  | value =>
    simp only [plainStep]
    split
    · exact h
    · exact beginValue_opened (nonempty (by simp) (by simp)) c
  | first =>
    simp only [plainStep]
    split
    · exact h
    split
    · exact closeItems_opened stack
    · exact beginValue_opened (nonempty (by simp) (by simp)) c
  | member =>
    simp only [plainStep]
    split
    · exact h
    split
    · exact closeFields_opened stack
    split
    · exact opened_of_stack (nonempty (by simp) (by simp)) (by simp)
    · exact fail_opened
  | key =>
    simp only [plainStep]
    split
    · exact h
    split
    · exact opened_of_stack (nonempty (by simp) (by simp)) (by simp)
    · exact fail_opened
  | colon key =>
    simp only [plainStep]
    split
    · exact h
    split
    · split
      · exact opened_of_stack (List.cons_ne_nil _ _) (by simp)
      · exact fail_opened
    · exact fail_opened
  | next =>
    simp only [plainStep]
    split
    · exact h
    split
    · split
      · exact opened_of_stack (List.cons_ne_nil _ _) (by simp)
      · exact opened_of_stack (List.cons_ne_nil _ _) (by simp)
      · exact fail_opened
    split
    · exact closeItems_opened stack
    split
    · exact closeFields_opened stack
    · exact fail_opened
  | string forKey read pending =>
    have some_open := nonempty (by simp) (by simp)
    simp only [plainStep]
    split
    · exact endString_opened some_open _ _
    split
    · exact opened_of_stack some_open (by simp)
    split
    · exact fail_opened
    · exact opened_of_stack some_open (by simp)
  | escape forKey read pending =>
    have some_open := nonempty (by simp) (by simp)
    simp only [plainStep]
    split
    · exact opened_of_stack some_open (by simp)
    split
    · exact opened_of_stack some_open (by simp)
    · exact fail_opened
  | hex forKey read pending left code =>
    have some_open := nonempty (by simp) (by simp)
    simp only [plainStep]
    split
    · exact fail_opened
    split
    · exact opened_of_stack some_open (by simp)
    · exact opened_of_stack some_open (by simp)
  | literal rest v =>
    have some_open := nonempty (by simp) (by simp)
    have letters := h.letters rest v rfl
    simp only [plainStep]
    split
    · exact fail_opened
    · split
      · exact complete_opened _ _
      · exact fail_opened
    · split
      · exact opened_literal some_open (fun member => letters (List.mem_cons_of_mem _ member)) v
      · exact fail_opened
  | number phase read => exact fail_opened
  | done v =>
    simp only [plainStep]
    split
    · exact h
    · exact fail_opened
  | failed => exact h

theorem step_opened {s : State} (h : Opened s) (c : Char) : Opened (step s c) := by
  unfold step
  split
  · rename_i phase read numeric
    have nonempty : s.stack ≠ [] := by
      rcases h.state with nonempty | failed | ⟨v, done⟩
      · exact nonempty
      · rw [numeric] at failed; cases failed
      · rw [numeric] at done; cases done
    split
    · exact opened_of_stack nonempty (by simp)
    split
    · exact opened_literal nonempty (by decide) _
    · exact plainStep_opened (settle_opened h) c
  · exact plainStep_opened h c

theorem run_opened {s : State} (h : Opened s) (text : List Char) : Opened (run s text) := by
  induction text generalizing s with
  | nil => exact h
  | cons c text ih => exact ih (step_opened h c)

theorem dumpsFields_snoc (fields : List (String × Value)) :
    ∃ text, dumpsFields fields = text ++ ['}'] := by
  induction fields with
  | nil => exact ⟨[], by rw [dumpsFields]; rfl⟩
  | cons f fields ih =>
    obtain ⟨text, eq⟩ := ih
    exact ⟨',' :: ' ' :: (dumpsField f ++ text), by rw [dumpsFields, eq]; simp⟩

/-- A written object stands between braces. -/
theorem dumps_obj (fields : List (String × Value)) :
    ∃ text, dumps (.obj fields) = '{' :: (text ++ ['}']) := by
  cases fields with
  | nil => exact ⟨[], by rw [dumps]; rfl⟩
  | cons f fields =>
    obtain ⟨text, eq⟩ := dumpsFields_snoc fields
    exact ⟨dumpsField f ++ text, by rw [dumps, eq]; simp⟩

/-- Reading a written object ends in the value read. -/
theorem settle_run_obj {fields : List (String × Value)} (exact : ExactFields fields) :
    settle (run start (dumps (.obj fields))) = ⟨[], .done (.obj fields)⟩ :=
  run_dumps (.obj fields) exact []

/-- Where a written object is cut off, something is open. -/
theorem run_torn {fields : List (String × Value)} (exact : ExactFields fields) {torn rest : List Char}
    (cut : dumps (.obj fields) = torn ++ rest) (nonempty : torn ≠ []) (lost : rest ≠ []) :
    (run start torn).stack ≠ [] ∧ Opened (run start torn) := by
  obtain ⟨text, braces⟩ := dumps_obj fields
  obtain ⟨c, torn, rfl⟩ := List.exists_cons_of_ne_nil nonempty
  have first : c = '{' := by
    rw [braces, List.cons_append] at cut
    exact (List.cons.inj cut).1.symm
  subst first
  have opened : Opened (run start ('{' :: torn)) :=
    run_opened (opened_of_stack (List.cons_ne_nil _ _) (by simp)) torn
  obtain ⟨rest, last, rfl⟩ : ∃ text c, rest = text ++ [c] :=
    ⟨_, _, (List.dropLast_append_getLast lost).symm⟩
  have brace : last = '}' := by
    rw [braces, ← List.cons_append, ← List.append_assoc] at cut
    exact (List.append_inj_right' cut rfl |> List.cons.inj).1.symm
  subst brace
  have whole := settle_run_obj exact
  rw [cut, run_append] at whole
  have unfailed : (run (run start ('{' :: torn)) (rest ++ ['}'])).mode ≠ .failed := by
    intro failed
    rw [settle, failed] at whole
    have same := congrArg State.mode whole
    rw [failed] at same
    cases same
  refine ⟨?_, opened⟩
  rcases opened.state with nonempty | failed | ⟨v, done⟩
  · exact nonempty
  · rw [run_failed failed] at unfailed
    exact absurd failed unfailed
  · exact absurd (run_done done rest rfl) unfailed

/-- **Torn text.** An object cut off before its end is no JSON text. -/
theorem loads_torn {fields : List (String × Value)} (exact : ExactFields fields) {torn rest : List Char}
    (cut : dumps (.obj fields) = torn ++ rest) (lost : rest ≠ []) : loads torn = none := by
  by_cases nonempty : torn = []
  · subst nonempty; rfl
  · exact finish_of_settle (settle_unfinished (Or.inl (run_torn exact cut nonempty lost).1))

theorem ends_open_brace : ∀ phase, numberStep phase '{' = none := by rintro ⟨⟩ <;> decide

theorem letter_ne {c d : Char} (letter : c.isAlpha = true) (no : d.isAlpha = false) : c ≠ d := by
  rintro rfl
  rw [letter] at no
  cases no

theorem letter_visible {c : Char} (letter : c.isAlpha = true) : isWhitespace c = false := by
  simp [isWhitespace, letter_ne letter (d := ' ') rfl, letter_ne letter (d := '\t') rfl,
    letter_ne letter (d := '\n') rfl, letter_ne letter (d := '\r') rfl]

/-- The text of an object whose first key starts with a letter. -/
theorem dumps_keyed {k : String} {c : Char} {rest : List Char} (letter : c.isAlpha = true)
    (named : k.toList = c :: rest) (v : Value) (fields : List (String × Value)) :
    ∃ text, dumps (.obj ((k, v) :: fields)) = '{' :: '"' :: c :: text := by
  have printable : 0x20 ≤ c.toNat ∧ c.toNat ≤ 0x7e := by
    have range : (decide (c.val ≥ 65 ∧ c.val ≤ 90) ||
      decide (c.val ≥ 97) && decide (c.val ≤ 122)) = true := letter
    simp only [ge_iff_le, Bool.or_eq_true, Bool.and_eq_true, decide_eq_true_eq,
      UInt32.le_iff_toNat_le, Char.toNat_val, UInt32.reduceToNat] at range
    omega
  have plain : escapeChar c = [c] := by
    rw [escapeChar, if_neg (letter_ne letter rfl), if_neg (letter_ne letter rfl),
      if_neg (letter_ne letter rfl), if_neg (letter_ne letter rfl), if_neg (letter_ne letter rfl),
      if_neg (letter_ne letter rfl), if_neg (letter_ne letter rfl), if_pos printable]
  rw [dumps, dumpsField, dumpsString, dumpsChars, named, List.flatMap_cons, plain]
  exact ⟨_, rfl⟩

/-- A letter does not follow a value. -/
theorem complete_letter (stack : List Frame) (v : Value) {c : Char} (letter : c.isAlpha = true) :
    step (complete stack v) c = fail := by
  unfold complete
  split <;>
    simp [step, plainStep, letter_visible letter, letter_ne letter (d := ',') rfl,
      letter_ne letter (d := ']') rfl, letter_ne letter (d := '}') rfl, fail]

theorem complete_brace (stack : List Frame) (v : Value) : plainStep (complete stack v) '{' = fail := by
  unfold complete
  split <;> rfl

/-- An object inside a string: its first quote closes the string, and the letter after it
follows no string. -/
theorem finish_in_string (stack : List Frame) (forKey : Bool) (read : List Char) (pending : Option Nat)
    {c : Char} (letter : c.isAlpha = true) (text : List Char) :
    finish (run ⟨stack, .string forKey read pending⟩ ('{' :: '"' :: c :: text)) = none := by
  have brace : step ⟨stack, .string forKey read pending⟩ '{' =
    inString stack forKey ('{' :: flush read pending) := rfl
  have quote (read : List Char) : step (inString stack forKey read) '"' =
    endString stack forKey read := rfl
  have failed (read : List Char) : step (endString stack forKey read) c = fail := by
    unfold endString
    split
    · simp [step, plainStep, letter_visible letter, letter_ne letter (d := ':') rfl]
    · exact complete_letter stack _ letter
  rw [run_cons, brace, run_cons, quote, run_cons, failed]
  exact finish_failed rfl _

/-- Where something is open, an object is read as an open value or not at all. -/
theorem run_object {s : State} (nonempty : s.stack ≠ []) (opened : Opened s) {k : String} {c : Char}
    {rest : List Char} (letter : c.isAlpha = true) (named : k.toList = c :: rest) {v : Value}
    {fields : List (String × Value)} (exact : ExactFields ((k, v) :: fields)) :
    finish (run s (dumps (.obj ((k, v) :: fields)))) = none := by
  obtain ⟨text, eq⟩ := dumps_keyed letter named v fields
  have failing (failed : step s '{' = fail) :
      finish (run s (dumps (.obj ((k, v) :: fields)))) = none := by
    rw [eq, run_cons, failed]
    exact finish_failed rfl _
  obtain ⟨stack, mode⟩ := s
  have asValue : finish (run ⟨stack, .value⟩ (dumps (.obj ((k, v) :: fields)))) = none := by
    apply finish_of_settle
    rw [run_dumps (.obj ((k, v) :: fields)) exact]
    exact complete_unfinished nonempty _
  cases mode with
  | value => exact asValue
  | first =>
    have same := run_first (v := .obj ((k, v) :: fields)) exact stack []
    rw [List.append_nil] at same
    rw [same]
    exact asValue
  | member => exact failing rfl
  | key => exact failing rfl
  | colon key => exact failing rfl
  | next => exact failing rfl
  | string forKey read pending =>
    rw [eq]
    exact finish_in_string stack forKey read pending letter text
  | escape forKey read pending => exact failing rfl
  | hex forKey read pending left code => exact failing rfl
  | number phase read =>
    apply failing
    rw [step_eq_settle _ ends_open_brace (by decide), settle]
    split
    · exact complete_brace stack _
    · exact complete_brace stack _
    · exact complete_brace stack _
    · exact complete_brace stack _
    · rfl
    · rename_i numeric
      exact absurd rfl (numeric phase read)
  | literal rest v =>
    have letters := opened.letters rest v rfl
    apply failing
    simp only [step, plainStep]
    split
    · rfl
    · rw [if_neg]
      rintro rfl
      simp at letters
    · rw [if_neg]
      rintro rfl
      simp at letters
  | done v => exact failing rfl
  | failed => exact finish_failed rfl _

/-- **Torn text with an object after it.** An object cut off before its end and another object
behind it, whose first key starts with a letter, are together no JSON text. -/
theorem loads_torn_append {fields : List (String × Value)} (exact : ExactFields fields)
    {torn rest : List Char} (cut : dumps (.obj fields) = torn ++ rest) (nonempty : torn ≠ [])
    {k : String} {c : Char} {name : List Char} (letter : c.isAlpha = true) (named : k.toList = c :: name)
    {v : Value} {more : List (String × Value)} (exact' : ExactFields ((k, v) :: more)) :
    loads (torn ++ dumps (.obj ((k, v) :: more))) = none := by
  rw [loads, run_append]
  by_cases lost : rest = []
  · -- The first object is whole: nothing but white space may follow it.
    rw [lost, List.append_nil] at cut
    obtain ⟨text, eq⟩ := dumps_keyed letter named v more
    have failed : step (run start torn) '{' = fail := by
      rw [step_eq_settle _ ends_open_brace (by decide), ← cut, settle_run_obj exact]
      rfl
    rw [eq, run_cons, failed]
    exact finish_failed rfl _
  · obtain ⟨some_open, opened⟩ := run_torn exact cut nonempty lost
    exact run_object some_open opened letter named exact'

end Json
