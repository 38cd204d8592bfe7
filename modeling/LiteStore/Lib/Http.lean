import LiteStore.Lib.Crlf
import LiteStore.Lib.Span
import LiteStore.Py.Utf8

/-!
# HTTP responses

A response is a status line, fields and an empty line, each ended by CR LF, and the bytes of its body.
The reader takes the lines of the head, which a lone LF may end too, up to the empty one, and as many
bytes behind it as the field `Content-Length` says. Fields over several lines and bodies in chunks are
left out. `read_bytes`: the reader gets a response back, and what follows it.
-/

namespace Http
set_option autoImplicit false
open Py Span

structure Response where
  statusCode : Nat
  reason : List Char
  fields : List (List Char × List Char)
  body : List UInt8
deriving DecidableEq

/-! ## Writing -/

def version : List Char := ['H', 'T', 'T', 'P', '/', '1', '.', '1', ' ']

def contentLength : List Char := ['C', 'o', 'n', 't', 'e', 'n', 't', '-', 'L', 'e', 'n', 'g', 't', 'h']

def statusLine (statusCode : Nat) (reason : List Char) : List Char :=
  version ++ (Nat.toDigits 10 statusCode ++ ' ' :: reason)

def fieldLine (field : List Char × List Char) : List Char := field.1 ++ ':' :: ' ' :: field.2

/-- The lines of the head, without their ends. -/
def Response.head (r : Response) : List (List Char) :=
  statusLine r.statusCode r.reason :: (r.fields.map fieldLine ++ [[]])

def Response.bytes (r : Response) : List UInt8 := encode (Crlf.framed r.head) ++ r.body

/-! ## Reading -/

/-- The next line without its end, and what follows it. -/
def readLine (bytes : List UInt8) : Option (List Char × List UInt8) :=
  match bytes.dropWhile fun b => b ≠ 10 with
  | [] => none
  | _ :: rest =>
    let line := bytes.takeWhile fun b => b ≠ 10
    some (decode (if line.getLast? = some 13 then line.dropLast else line), rest)

def readNumber (digits : List Char) : Option Nat :=
  if digits ≠ [] ∧ digits.all Char.isDigit then some (Nat.ofDigitChars 10 digits 0) else none

def readStatus (line : List Char) : Option (Nat × List Char) :=
  if line.take 9 = version then
    match (line.drop 9).dropWhile fun c => c ≠ ' ' with
    | [] => none
    | _ :: reason => (readNumber ((line.drop 9).takeWhile fun c => c ≠ ' ')).map fun code => (code, reason)
  else none

def readField (line : List Char) : Option (List Char × List Char) :=
  match line.dropWhile fun c => c ≠ ':' with
  | [] => none
  | _ :: value => some (line.takeWhile fun c => c ≠ ':', value.dropWhile fun c => c = ' ')

/-- At most `n` lines: the fields up to the empty line, and what follows it. -/
def readFields : Nat → List UInt8 → Option (List (List Char × List Char) × List UInt8)
  | 0, _ => none
  | n + 1, bytes =>
    (readLine bytes).bind fun (line, rest) =>
      if line = [] then some ([], rest)
      else (readField line).bind fun field =>
        (readFields n rest).map fun (fields, rest) => (field :: fields, rest)

/-- A response, and what follows it. -/
def read (bytes : List UInt8) : Option (Response × List UInt8) :=
  (readLine bytes).bind fun (line, rest) =>
    (readStatus line).bind fun (statusCode, reason) =>
      (readFields rest.length rest).bind fun (fields, rest) =>
        (fields.find? fun field => field.1 = contentLength).bind fun field =>
          (readNumber field.2).bind fun length =>
            if length ≤ rest.length then
              some (⟨statusCode, reason, fields, rest.take length⟩, rest.drop length)
            else none

/-! ## What is written is read back -/

/-- The field's name and value are one line, and the blank in front of the value is the only one. -/
structure PlainField (field : List Char × List Char) : Prop where
  name : ∀ c ∈ field.1, c ≠ ':' ∧ c ≠ '\n'
  value : '\n' ∉ field.2
  trimmed : field.2.head? ≠ some ' '

structure Response.WellFormed (r : Response) : Prop where
  reason : '\n' ∉ r.reason
  fields : ∀ field ∈ r.fields, PlainField field
  length : r.fields.find? (fun field => field.1 = contentLength) =
    some (contentLength, Nat.toDigits 10 r.body.length)

theorem readNumber_toDigits (n : Nat) : readNumber (Nat.toDigits 10 n) = some n := by
  have digits : (Nat.toDigits 10 n).all Char.isDigit = true :=
    List.all_eq_true.mpr fun c m => Nat.isDigit_of_mem_toDigits (by decide) (by decide) m
  rw [readNumber, if_pos ⟨Nat.toDigits_ne_nil, digits⟩, Nat.ofDigitChars_ten_toDigits]

theorem readLine_line {line : List Char} (free : '\n' ∉ line) (rest : List UInt8) :
    readLine (encode (line ++ ['\r', '\n']) ++ rest) = some (line, rest) := by
  have ends : encode ['\r', '\n'] = [13, 10] := by decide
  have split : encode (line ++ ['\r', '\n']) ++ rest = (encode line ++ [13]) ++ 10 :: rest := by
    rw [encode_append, ends]
    simp
  have all : ∀ b ∈ encode line ++ [13], decide (b ≠ (10 : UInt8)) = true := by
    intro b m
    refine decide_eq_true fun feed => ?_
    rcases List.mem_append.mp m with m | m
    · exact newline_encode free (feed ▸ m)
    · rw [feed] at m
      exact absurd (List.mem_singleton.mp m) (by decide)
  rw [readLine, split, dropWhile_stop all (by decide), takeWhile_stop all (by decide)]
  simp only [List.getLast?_append, List.getLast?_singleton, Option.some_or, if_true, List.dropLast_concat,
    decode_encode]

theorem readStatus_statusLine (statusCode : Nat) (reason : List Char) :
    readStatus (statusLine statusCode reason) = some (statusCode, reason) := by
  have start : (statusLine statusCode reason).take 9 = version := by simp [statusLine, version]
  have rest : (statusLine statusCode reason).drop 9 = Nat.toDigits 10 statusCode ++ ' ' :: reason := by
    simp [statusLine, version]
  have all : ∀ c ∈ Nat.toDigits 10 statusCode, decide (c ≠ ' ') = true := by
    intro c m
    refine decide_eq_true fun blank => ?_
    rw [blank] at m
    exact absurd (Nat.isDigit_of_mem_toDigits (by decide) (by decide) m) (by decide)
  rw [readStatus, if_pos start, rest, dropWhile_stop all rfl, takeWhile_stop all rfl, readNumber_toDigits]
  rfl

theorem readField_fieldLine {field : List Char × List Char} (plain : PlainField field) :
    readField (fieldLine field) = some field := by
  have all : ∀ c ∈ field.1, decide (c ≠ ':') = true := fun c m => decide_eq_true (plain.name c m).1
  have trimmed : field.2.dropWhile (fun c => c = ' ') = field.2 := by
    cases value : field.2 with
    | nil => rfl
    | cons c rest =>
      refine List.dropWhile_cons_of_neg fun blank => plain.trimmed ?_
      rw [value, of_decide_eq_true blank]
      rfl
  rw [readField, fieldLine, dropWhile_stop all rfl, takeWhile_stop all rfl]
  show some (field.1, (' ' :: field.2).dropWhile fun c => c = ' ') = some field
  rw [List.dropWhile_cons_of_pos (by decide), trimmed]

theorem readFields_lines {fields : List (List Char × List Char)} (plain : ∀ field ∈ fields, PlainField field)
    {n : Nat} (enough : fields.length < n) (rest : List UInt8) :
    readFields n (encode (Crlf.framed (fields.map fieldLine ++ [[]])) ++ rest) = some (fields, rest) := by
  induction fields generalizing n with
  | nil =>
    obtain ⟨n, rfl⟩ := Nat.exists_eq_succ_of_ne_zero (Nat.ne_of_gt enough)
    rw [readFields]
    show (readLine (encode ([] ++ ['\r', '\n']) ++ rest)).bind _ = _
    rw [readLine_line List.not_mem_nil]
    rfl
  | cons field fields ih =>
    obtain ⟨n, rfl⟩ := Nat.exists_eq_succ_of_ne_zero (Nat.ne_of_gt (Nat.lt_of_le_of_lt (Nat.zero_le _) enough))
    have here := plain field List.mem_cons_self
    have line : '\n' ∉ fieldLine field := by
      simp only [fieldLine, List.mem_append, List.mem_cons, not_or]
      exact ⟨fun m => (here.name _ m).2 rfl, by decide, by decide, here.value⟩
    have some : fieldLine field ≠ [] := by simp [fieldLine]
    have split : encode (Crlf.framed ((field :: fields).map fieldLine ++ [[]])) ++ rest =
        encode (fieldLine field ++ ['\r', '\n']) ++
          (encode (Crlf.framed (fields.map fieldLine ++ [[]])) ++ rest) := by
      rw [List.map_cons, List.cons_append, ← List.singleton_append, Crlf.framed_append, encode_append,
        List.append_assoc]
      simp [Crlf.framed]
    rw [readFields, split, readLine_line line]
    simp only [Option.bind_some, if_neg some, readField_fieldLine here]
    rw [ih (fun f m => plain f (List.mem_cons_of_mem _ m)) (by simpa using enough)]
    rfl

theorem length_le_framed (lines : List (List Char)) : lines.length ≤ (Crlf.framed lines).length := by
  induction lines with
  | nil => exact Nat.le_refl 0
  | cons line lines ih =>
    rw [Crlf.framed_cons, List.length_append, List.length_cons, List.length_cons, List.length_cons]
    omega

/-- **A response is read back**, and what follows it is left. -/
theorem read_bytes {r : Response} (h : r.WellFormed) (more : List UInt8) : read (r.bytes ++ more) = some (r, more) := by
  have line : '\n' ∉ statusLine r.statusCode r.reason := by
    simp only [statusLine, List.mem_append, List.mem_cons, not_or]
    refine ⟨by decide, fun m => ?_, by decide, h.reason⟩
    exact absurd (Nat.isDigit_of_mem_toDigits (by decide) (by decide) m) (by decide)
  have split : r.bytes ++ more = encode (statusLine r.statusCode r.reason ++ ['\r', '\n']) ++
      (encode (Crlf.framed (r.fields.map fieldLine ++ [[]])) ++ (r.body ++ more)) := by
    rw [Response.bytes, Response.head, ← List.singleton_append, Crlf.framed_append, encode_append, List.append_assoc,
      List.append_assoc]
    simp [Crlf.framed]
  have enough : r.fields.length <
      (encode (Crlf.framed (r.fields.map fieldLine ++ [[]])) ++ (r.body ++ more)).length := by
    have lines := length_le_framed (r.fields.map fieldLine ++ [[]])
    have encoded := length_le_encode (Crlf.framed (r.fields.map fieldLine ++ [[]]))
    simp only [List.length_append, List.length_map, List.length_singleton] at lines ⊢
    omega
  rw [read, split, readLine_line line]
  simp only [Option.bind_some, readStatus_statusLine]
  rw [readFields_lines h.fields enough]
  simp only [Option.bind_some, h.length, readNumber_toDigits]
  rw [if_pos (by simp), List.take_left, List.drop_left]

end Http
