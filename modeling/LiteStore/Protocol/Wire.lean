import LiteStore.Commands.Said
import LiteStore.Lib.Crlf
import LiteStore.Lib.Span
import LiteStore.Protocol.Model

/-!
# Responses on the wire

A response is written as the lines `responseLines`, unless its integer is too long (`Writable`), and
`readLines` reads lines back. Of what the program sends, it reads everything but the request id and the difference between a null and the
text `-1` (`readLines_responseLines`). No line of an answer holds a line feed, since no command
line does; so the text of an answer determines its lines, and two answers have the same text
exactly when they read the same.
-/

namespace LiteStore
set_option autoImplicit false
open Py MemoryStore Span

/-- The responses that are sent: each kind with the fields it is written from. -/
inductive Sent : CommandResponse → Prop
  | simpleString (message : String) (requestId : Option String) :
      Sent { kind := .SIMPLE_STRING, message := some message, requestId := requestId }
  | bulkString (value : String) (requestId : Option String) :
      Sent { kind := .BULK_STRING, value := some value, requestId := requestId }
  | integer (n : Int) (requestId : Option String) :
      Sent { kind := .INTEGER, integer := some n, requestId := requestId }
  | null (requestId : Option String) : Sent { kind := .NULL, requestId := requestId }
  | array (values : List (Option String)) (requestId : Option String) :
      Sent { kind := .ARRAY, values := values, requestId := requestId }
  | error (code : ErrorCode) (message : String) (requestId : Option String) :
      Sent { kind := .ERROR, errorCode := some code, message := some message, requestId := requestId }

theorem Answer.sent {request : CommandRequest} {response : CommandResponse}
    (answer : Answer request response) : Sent response := by
  cases answer with
  | simpleString message _ => exact .simpleString message request.requestId
  | integer n => exact .integer n request.requestId
  | value v =>
    cases v with
    | none => exact .null request.requestId
    | some v => exact .bulkString v request.requestId
  | array values => exact .array values request.requestId
  | wrongArity expected => exact .error .WRONG_ARITY _ request.requestId
  | error code message _ => exact .error code message request.requestId

/-! ## Writing -/

/-- The line of an array entry, without its end. -/
def entryLine (item : Option String) : List Char := '$' :: (item.getD "-1").toList

/-- The lines of a response, without their ends. -/
def responseLines (response : CommandResponse) : List (List Char) :=
  match response.kind with
  | .SIMPLE_STRING => ['+' :: (response.message.getD "").toList]
  | .BULK_STRING => ['$' :: (response.value.getD "").toList]
  | .INTEGER => [':' :: (toString (response.integer.getD 0)).toList]
  | .NULL => [entryLine none]
  | .ARRAY => ('*' :: (toString response.values.length).toList) :: response.values.map entryLine
  | .ERROR =>
    [['-', 'E', 'R', 'R', ' '] ++ (response.errorCode.getD .INTERNAL_ERROR).value.toList ++
      ' ' :: (response.message.getD "Unknown error").toList]

@[simp] theorem toString_text (s : String) : toString s = s := rfl

theorem toList_entryText (item : Option String) :
    (entryText item).toList = entryLine item ++ ['\r', '\n'] := by
  cases item with
  | none => decide
  | some item => simp [entryText, entryLine]

/-- Its integer, if it has one, is not too long. -/
def CommandResponse.Writable (response : CommandResponse) : Prop :=
  ∀ n, response.integer = some n → n.natAbs < 10 ^ maxStrDigits

theorem str?_some {n : Int} (short : n.natAbs < 10 ^ maxStrDigits) : str? n = some (toString n) := if_pos short

theorem str?_none {n : Int} (long : ¬ n.natAbs < 10 ^ maxStrDigits) : str? n = none := if_neg long

/-- The text of a response is its lines. -/
theorem serializeResponse_lines {response : CommandResponse} (sent : Sent response) (short : response.Writable) :
    ∃ text, serializeResponse response = .ok text ∧
      text.toList = Crlf.framed (responseLines response) := by
  cases sent with
  | array values requestId =>
    refine ⟨_, rfl, ?_⟩
    rw [String.toList_join, List.flatMap_cons, List.flatMap_map, responseLines, Crlf.framed_cons]
    simp [Crlf.framed, toList_entryText, List.flatMap_map]
  | integer n requestId =>
    refine ⟨s!":{toString n}\r\n", ?_, by simp [responseLines, Crlf.framed]⟩
    simp only [serializeResponse, str?_some (short n rfl)]
  | _ => exact ⟨_, rfl, by simp [responseLines, entryLine, Crlf.framed]⟩

/-- A response that is too long has no text. -/
theorem serializeResponse_long {response : CommandResponse} (sent : Sent response) (long : ¬ response.Writable) :
    serializeResponse response = .error .valueError := by
  cases sent with
  | integer n requestId =>
    have digits : ¬ n.natAbs < 10 ^ maxStrDigits := by
      intro few
      refine long fun k same => ?_
      cases same
      exact few
    simp only [serializeResponse, str?_none digits]
  | _ => exact absurd (by rintro n ⟨⟩) long

/-- **What has a text.** -/
theorem serializeResponse_ok_iff {response : CommandResponse} (sent : Sent response) :
    (∃ text, serializeResponse response = .ok text) ↔ response.Writable := by
  constructor
  · rintro ⟨text, written⟩
    by_contra long
    rw [serializeResponse_long sent long] at written
    cases written
  · intro short
    obtain ⟨text, written, _⟩ := serializeResponse_lines sent short
    exact ⟨text, written⟩

/-- None of its texts holds a line feed. -/
def OneLiner (response : CommandResponse) : Prop :=
  (∀ m, response.message = some m → '\n' ∉ m.toList) ∧ Speaks (fun v => '\n' ∉ v.toList) response

theorem newline_entryLine {item : Option String} (free : ∀ v, item = some v → '\n' ∉ v.toList) :
    '\n' ∉ entryLine item := by
  cases item with
  | none => decide
  | some v => simpa [entryLine] using free v rfl

theorem newline_responseLines {response : CommandResponse} (sent : Sent response)
    (free : OneLiner response) : ∀ line ∈ responseLines response, '\n' ∉ line := by
  obtain ⟨message, value, values⟩ := free
  cases sent with
  | simpleString text _ => simpa [responseLines] using message text rfl
  | bulkString text _ => simpa [responseLines] using value text rfl
  | integer n _ => simpa [responseLines] using newline_int n
  | null _ => simp [responseLines, entryLine]
  | array items _ =>
    intro line m
    rcases List.mem_cons.mp m with head | entry
    · have := newline_nat items.length
      rw [head]
      simpa using this
    · obtain ⟨item, there, rfl⟩ := List.mem_map.mp entry
      exact newline_entryLine fun v same => values v (same ▸ there)
  | error code text _ =>
    have coded : '\n' ∉ code.value.toList := by cases code <;> decide
    simpa [responseLines, coded] using message text rfl

/-! ## Reading -/

/-- The members of the enumeration, in its order. -/
def ErrorCode.members : List ErrorCode :=
  [.INVALID_REQUEST, .UNKNOWN_COMMAND, .WRONG_ARITY, .KEY_NOT_FOUND, .EXPIRED_KEY, .STORAGE_ERROR,
   .PERSISTENCE_ERROR, .ROUTING_ERROR, .WORKER_ERROR, .INTERNAL_ERROR]

/-- Read a decimal number. -/
def readInt : List Char → Int
  | '-' :: digits => -(Nat.ofDigitChars 10 digits 0)
  | digits => Nat.ofDigitChars 10 digits 0

/-- Read what stands after `-ERR `: a code up to the first space, and the message after it. -/
def readError (text : List Char) : CommandResponse where
  kind := .ERROR
  errorCode := ErrorCode.members.find? fun code => code.value.toList = text.takeWhile (· ≠ ' ')
  message := some (String.ofList ((text.dropWhile (· ≠ ' ')).drop 1))

/-- Read a response from its lines. -/
def readLines : List (List Char) → Option CommandResponse
  | ['+' :: text] => some { kind := .SIMPLE_STRING, message := some (String.ofList text) }
  | ['$' :: text] => some { kind := .BULK_STRING, value := some (String.ofList text) }
  | [':' :: text] => some { kind := .INTEGER, integer := some (readInt text) }
  | ('*' :: _) :: entries =>
    some { kind := .ARRAY, values := entries.map fun entry => some (String.ofList entry.tail) }
  | ['-' :: 'E' :: 'R' :: 'R' :: ' ' :: text] => some (readError text)
  | _ => none

/-- What a reader of the text gets: no request id, and the text `-1` for a null. -/
def asRead (response : CommandResponse) : CommandResponse :=
  { response with
    kind := if response.kind = .NULL then .BULK_STRING else response.kind
    value := if response.kind = .NULL then some "-1" else response.value
    values := response.values.map fun item => some (item.getD "-1")
    requestId := none }

theorem readInt_toDigits (n : Nat) : readInt (Nat.toDigits 10 n) = n := by
  have value := Nat.ofDigitChars_ten_toDigits (n := n)
  unfold readInt
  split
  · rename_i digits signed
    have sign : '-' ∈ Nat.toDigits 10 n := by rw [signed]; exact List.mem_cons_self
    exact absurd (Nat.isDigit_of_mem_toDigits (by decide) (by decide) sign) (by decide)
  · rw [value]

theorem readInt_repr (n : Int) : readInt n.repr.toList = n := by
  rw [Int.repr_eq_if]
  split
  · rename_i positive
    rw [Nat.toList_repr, readInt_toDigits]
    omega
  · rw [String.toList_append, Nat.toList_repr]
    show -((Nat.ofDigitChars 10 (Nat.toDigits 10 (-n).toNat) 0 : Nat) : Int) = n
    rw [Nat.ofDigitChars_ten_toDigits]
    omega

theorem readError_text (code : ErrorCode) (message : String) :
    readError (code.value.toList ++ ' ' :: message.toList) =
      { kind := .ERROR, errorCode := some code, message := some message } := by
  have plain : ∀ c ∈ code.value.toList, decide (c ≠ ' ') = true :=
    List.all_eq_true.mp (by cases code <;> decide)
  have found : (ErrorCode.members.find? fun c => decide (c.value.toList = code.value.toList)) = some code := by
    cases code <;> decide
  unfold readError
  rw [takeWhile_stop plain rfl, dropWhile_stop plain rfl, found]
  simp

/-- **Reading back** what was written. -/
theorem readLines_responseLines {response : CommandResponse} (sent : Sent response) :
    readLines (responseLines response) = some (asRead response) := by
  cases sent with
  | integer n requestId => simp [responseLines, readLines, asRead, readInt_repr]
  | error code message requestId => simp [responseLines, readLines, readError_text, asRead]
  | array values requestId => simp [responseLines, readLines, asRead, entryLine]
  | _ => simp [responseLines, readLines, asRead, entryLine]

/-- The text says no more than what is read. -/
theorem serializeResponse_asRead (response : CommandResponse) :
    serializeResponse (asRead response) = serializeResponse response := by
  obtain ⟨kind, message, value, integer, errorCode, requestId, values⟩ := response
  have entries : (values.map fun item => some (item.getD "-1")).map entryText = values.map entryText := by
    rw [List.map_map]
    refine List.map_congr_left fun item _ => ?_
    cases item <;> rfl
  cases kind with
  | ARRAY => simp [serializeResponse, asRead, entries]
  | NULL => rfl
  | _ => simp [serializeResponse, asRead]

/-- The text of a sent response without line feeds is that of another exactly when they read the same. -/
theorem sent_text_iff {first second : CommandResponse} (sent : Sent first) (sent' : Sent second)
    (free : OneLiner first) (free' : OneLiner second) {text : String} (written : serializeResponse first = .ok text) :
    serializeResponse second = .ok text ↔ asRead first = asRead second := by
  constructor
  · intro written'
    obtain ⟨text', same, framed⟩ :=
      serializeResponse_lines sent ((serializeResponse_ok_iff sent).mp ⟨text, written⟩)
    obtain ⟨text'', same', framed'⟩ :=
      serializeResponse_lines sent' ((serializeResponse_ok_iff sent').mp ⟨text, written'⟩)
    rw [written, Except.ok.injEq] at same
    rw [written', Except.ok.injEq] at same'
    rw [← same] at framed
    rw [← same', framed] at framed'
    have lines := Crlf.framed_inj (newline_responseLines sent free) (newline_responseLines sent' free') framed'
    have read := readLines_responseLines sent'
    rw [← lines, readLines_responseLines sent] at read
    exact Option.some.inj read
  · intro same
    rw [← serializeResponse_asRead second, ← same, serializeResponse_asRead, written]

/-! ## What a store answers -/

/-- No error message holds a line feed. -/
theorem Answer.message_newline {request : CommandRequest} {response : CommandResponse}
    (answer : Answer request response) : ∀ m, response.message = some m → '\n' ∉ m.toList := by
  rintro m said
  cases answer with
  | simpleString message known =>
    cases said
    rcases List.mem_pair.mp known with rfl | rfl <;> decide
  | wrongArity expected =>
    cases said
    have named : '\n' ∉ request.command.value.toList := by cases request.command <;> decide
    exact newline_arity named expected request.args.length
  | error code message known =>
    cases said
    simp only [fixedErrors, List.mem_cons, Prod.mk.injEq, List.not_mem_nil, or_false] at known
    rcases known with ⟨-, rfl⟩ | ⟨-, rfl⟩ | ⟨-, rfl⟩ <;> decide
  | value v => cases v <;> cases said
  | integer n => cases said
  | array values => cases said

section Reached

variable (m : Type → Type) (τ : Type) [LinearOrder τ] [Zero τ] [Timestamp τ] [PyMonad m] [TimeArith m τ]

/-- The stores that command lines, expiry passes and snapshots make, with clocks of any kind. -/
inductive Reached : MemoryStore τ → Prop
  | fresh (wheel : TimingWheel τ) : Reached (fresh wheel)
  | command {s : MemoryStore τ} (reached : Reached s) (line : String) (requestId clientId : Option String)
      (request : CommandRequest) (clock : Clock τ) (r : CommandResponse × MemoryStore τ)
      (free : '\n' ∉ line.toList) (parsed : parseCommand line requestId clientId = .ok request)
      (done : PyMonad.outcome (executeCommand (m := m) request s clock) = .ok r) : Reached r.2
  | pass {s : MemoryStore τ} (reached : Reached s) (clock : Clock τ) (now : Option τ)
      (r : Nat × MemoryStore τ)
      (done : PyMonad.outcome (s.processExpirations (m := m) clock now) = .ok r) : Reached r.2
  | snapshot {s : MemoryStore τ} (reached : Reached s) (clock : Clock τ)
      (r : Dict String String × MemoryStore τ)
      (done : PyMonad.outcome (s.snapshot (m := m) clock) = .ok r) : Reached r.2

/-- The responses of such stores to requests parsed from command lines. -/
def Returned (response : CommandResponse) : Prop :=
  ∃ s line requestId clientId request clock s', Reached m τ s ∧ '\n' ∉ String.toList line ∧
    parseCommand line requestId clientId = .ok request ∧
    PyMonad.outcome (executeCommand (m := m) request s clock) = .ok (response, s')

variable {m τ}

theorem parsed_newline {line : String} {requestId clientId : Option String} {request : CommandRequest}
    (free : '\n' ∉ line.toList) (parsed : parseCommand line requestId clientId = .ok request) :
    ∀ a ∈ request.args, '\n' ∉ a.toList :=
  (parseCommand_newline fun m => free (strip_subset _ m)).1 request parsed

/-- No text of such a store holds a line feed. -/
theorem Reached.told {s : MemoryStore τ} (reached : Reached m τ s) : Told (fun v => '\n' ∉ v.toList) s := by
  induction reached with
  | fresh wheel => exact told_fresh wheel
  | command _ line requestId clientId request clock r free parsed done told =>
    exact (executeCommand_told told (parsed_newline free parsed) done).1
  | pass _ clock now r done told => exact told.processExpirations done
  | snapshot _ clock r done told => exact told.snapshot done

theorem Returned.oneLiner {response : CommandResponse} (returned : Returned m τ response) :
    Sent response ∧ OneLiner response := by
  obtain ⟨s, line, requestId, clientId, request, clock, s', reached, free, parsed, done⟩ := returned
  have answer := (executeCommand_harmless done).1
  exact ⟨answer.sent, answer.message_newline,
    (executeCommand_told reached.told (parsed_newline free parsed) done).2⟩

/-- **Telling answers apart.** An answer that has a text has the text of another exactly when they are
the same up to the request id and to a null being written as the text `-1` is. -/
theorem answers_told_apart {first second : CommandResponse} (returned : Returned m τ first)
    (returned' : Returned m τ second) {text : String} (written : serializeResponse first = .ok text) :
    serializeResponse second = .ok text ↔ asRead first = asRead second := by
  obtain ⟨sent, free⟩ := returned.oneLiner
  obtain ⟨sent', free'⟩ := returned'.oneLiner
  exact sent_text_iff sent sent' free free' written

end Reached

/-- A store reached in exact time by one command line. -/
theorem reached_line (line : String) (request : CommandRequest) (free : '\n' ∉ line.toList)
    (parsed : parseCommand line none none = .ok request) :
    Reached Id ℚ (Id.run (executeCommand request (fresh TimingWheel.default) (Clock.still 0))).2 :=
  .command (.fresh TimingWheel.default) line none none request (Clock.still 0) _ free parsed rfl

/-- An answer of such a store in exact time. -/
theorem returned_line {s : MemoryStore ℚ} (reached : Reached Id ℚ s) (line : String)
    (request : CommandRequest) (free : '\n' ∉ line.toList)
    (parsed : parseCommand line none none = .ok request) :
    Returned Id ℚ (Id.run (executeCommand request s (Clock.still 0))).1 :=
  ⟨s, line, none, none, request, Clock.still 0, _, reached, free, parsed, rfl⟩

/-- The answers to `GET` of the text `-1` and of a key that is not there. -/
theorem text_and_null_told :
    let s := (Id.run (executeCommand { command := .SET, args := ["k", "-1"] }
      (fresh TimingWheel.default) (Clock.still 0) : Id (CommandResponse × MemoryStore ℚ))).2
    let text := (Id.run (executeCommand { command := .GET, args := ["k"] } s (Clock.still 0))).1
    let null := (Id.run (executeCommand { command := .GET, args := ["j"] } s (Clock.still 0))).1
    serializeResponse text = .ok "$-1\r\n" ∧
      (serializeResponse null = .ok "$-1\r\n" ↔ asRead text = asRead null) := by
  have reached := reached_line "SET k -1" { command := .SET, args := ["k", "-1"] } (by decide)
    (by decide +kernel)
  refine ⟨by decide +kernel, answers_told_apart
    (returned_line reached "GET k" { command := .GET, args := ["k"] } (by decide) (by decide +kernel))
    (returned_line reached "GET j" { command := .GET, args := ["j"] } (by decide) (by decide +kernel)) ?_⟩
  decide +kernel

/-- These two answers differ, but their texts are the same. -/
theorem text_written_as_null :
    ¬ ∀ (first second : CommandResponse) (text : String), Returned Id ℚ first → Returned Id ℚ second →
      serializeResponse first = .ok text → serializeResponse second = .ok text →
      { first with requestId := none } = { second with requestId := none } := by
  intro claim
  have reached := reached_line "SET k -1" { command := .SET, args := ["k", "-1"] } (by decide)
    (by decide +kernel)
  have same := claim _ _ "$-1\r\n"
    (returned_line reached "GET k" { command := .GET, args := ["k"] } (by decide) (by decide +kernel))
    (returned_line reached "GET j" { command := .GET, args := ["j"] } (by decide) (by decide +kernel))
    (by decide +kernel) (by decide +kernel)
  exact absurd same (by decide +kernel)

end LiteStore
