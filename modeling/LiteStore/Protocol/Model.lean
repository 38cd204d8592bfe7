import LiteStore.Py.Upper
import LiteStore.Py.Words
import LiteStore.Types

/-!
# The text protocol

`parse_command` and `serialize_response` of `src/protocol.py`. A command line is white-space
separated words; only the value of `SET` may hold white space. A response is one line, an array one
line and one more for each entry.
-/

namespace LiteStore
set_option autoImplicit false
open Py

/-- `ErrorCode.value`. -/
def ErrorCode.value : ErrorCode → String
  | .INVALID_REQUEST => "INVALID_REQUEST"
  | .UNKNOWN_COMMAND => "UNKNOWN_COMMAND"
  | .WRONG_ARITY => "WRONG_ARITY"
  | .KEY_NOT_FOUND => "KEY_NOT_FOUND"
  | .EXPIRED_KEY => "EXPIRED_KEY"
  | .STORAGE_ERROR => "STORAGE_ERROR"
  | .PERSISTENCE_ERROR => "PERSISTENCE_ERROR"
  | .ROUTING_ERROR => "ROUTING_ERROR"
  | .WORKER_ERROR => "WORKER_ERROR"
  | .INTERNAL_ERROR => "INTERNAL_ERROR"

/-- `LiteStoreError`. -/
structure LiteStoreError where
  code : ErrorCode
  message : String
  context : List (String × String) := []
deriving DecidableEq, Repr

/-- `InvalidRequestError(message)`. -/
def invalidRequestError (message : String) : LiteStoreError := ⟨.INVALID_REQUEST, message, []⟩

/-- `UnknownCommandError(message, context)`. -/
def unknownCommandError (message : String) (context : List (String × String)) : LiteStoreError :=
  ⟨.UNKNOWN_COMMAND, message, context⟩

/-- `WrongArityError(message, context)`. -/
def wrongArityError (message : String) (context : List (String × String)) : LiteStoreError :=
  ⟨.WRONG_ARITY, message, context⟩

/-- `_split_command`, for a stripped line that is not empty. -/
def splitCommand (commandLine : List Char) : String × List String :=
  match splitMax 1 commandLine with
  | [] => ("", [])
  | [first] => (String.ofList (upper first), [])
  | first :: rest :: _ =>
    let verb := String.ofList (upper first)
    if verb = CommandName.SET.value then
      match splitMax 2 commandLine with
      | [_, key, value] => (verb, [String.ofList key, String.ofList value])
      | setParts => (verb, setParts.tail.map String.ofList)
    else (verb, (split rest).map String.ofList)

/-- `_ensure_arity`. -/
def ensureArity (command : String) (args : List String) (expected : Nat) : Except LiteStoreError Unit :=
  if args.length ≠ expected then
    .error (wrongArityError s!"{command} expects {expected} argument(s), received {args.length}"
      [("command", command), ("expected", toString expected), ("received", toString args.length)])
  else .ok ()

/-- `parse_command`. -/
def parseCommand (rawCommand : String) (requestId clientId : Option String) :
    Except LiteStoreError CommandRequest :=
  let commandLine := strip rawCommand.toList
  if commandLine = [] then .error (invalidRequestError "Command cannot be empty")
  else
    let (verb, args) := splitCommand commandLine
    let request (command : CommandName) (args : List String) : CommandRequest :=
      { command := command, args := args, requestId := requestId, clientId := clientId }
    match CommandName.ofValue? verb with
    | some .PING => do
      ensureArity verb args 0
      return request .PING []
    | some .SET => do
      ensureArity verb args 2
      return request .SET args
    | some .GET => do
      ensureArity verb args 1
      return request .GET args
    | some .DEL => do
      ensureArity verb args 1
      return request .DEL args
    | some .EXPIRE => do
      ensureArity verb args 2
      return request .EXPIRE args
    | some .TTL => do
      ensureArity verb args 1
      return request .TTL args
    | some .MGET =>
      if args.length < 1 then
        .error (wrongArityError "MGET requires at least 1 key" [("command", verb)])
      else .ok (request .MGET args)
    | some .KEYS =>
      if args.length > 1 then
        .error (wrongArityError "KEYS accepts 0 or 1 arguments" [("command", verb)])
      else .ok (request .KEYS args)
    | some .FLUSHALL => do
      ensureArity verb args 0
      return request .FLUSHALL []
    | none => .error (unknownCommandError s!"Unsupported command: {verb}" [("command", verb)])

/-- What `serialize_response` raises: its own error, or the `ValueError` of an integer that is too
long to be written. -/
inductive SerializeError where
  | invalidRequest (exc : LiteStoreError)
  | valueError
deriving DecidableEq, Repr

/-- The line of an array entry. -/
def entryText : Option String → String
  | none => "$-1\r\n"
  | some item => s!"${item}\r\n"

/-- `serialize_response`. The number of values is a length, so it can be written. -/
def serializeResponse (response : CommandResponse) : Except SerializeError String :=
  match response.kind with
  | .SIMPLE_STRING =>
    let payload := response.message.getD ""
    .ok s!"+{payload}\r\n"
  | .BULK_STRING =>
    match response.value with
    | none => .error (.invalidRequest (invalidRequestError "Bulk string response requires a value"))
    | some value => .ok s!"${value}\r\n"
  | .INTEGER =>
    match response.integer with
    | none => .error (.invalidRequest (invalidRequestError "Integer response requires an integer value"))
    | some n =>
      match str? n with
      | none => .error .valueError
      | some digits => .ok s!":{digits}\r\n"
  | .NULL => .ok "$-1\r\n"
  | .ARRAY => .ok (String.join (s!"*{response.values.length}\r\n" :: response.values.map entryText))
  | .ERROR =>
    let code := (response.errorCode.getD .INTERNAL_ERROR).value
    let message := response.message.getD "Unknown error"
    .ok s!"-ERR {code} {message}\r\n"

example : parseCommand " ſet key  a value\r\n" none none =
    .ok { command := .SET, args := ["key", "a value"] } := by decide +kernel

/-! ## What a command line gives -/

theorem splitCommand_newline {commandLine : List Char} (free : '\n' ∉ commandLine) :
    '\n' ∉ (splitCommand commandLine).1.toList ∧
      ∀ a ∈ (splitCommand commandLine).2, '\n' ∉ a.toList := by
  have word {n : Nat} {w : List Char} (m : w ∈ splitMax n commandLine) : '\n' ∉ w := fun there =>
    free (splitMax_subset m there)
  have words {l : List (List Char)} (each : ∀ w ∈ l, '\n' ∉ w) :
      ∀ a ∈ l.map String.ofList, '\n' ∉ a.toList := by
    intro a m
    obtain ⟨w, there, rfl⟩ := List.mem_map.mp m
    rw [String.toList_ofList]
    exact each w there
  unfold splitCommand
  split
  · exact ⟨by decide, by rintro a ⟨⟩⟩
  · rename_i first parts
    refine ⟨?_, by rintro a ⟨⟩⟩
    rw [String.toList_ofList]
    exact newline_upper (word (parts ▸ List.mem_singleton_self first))
  · rename_i first rest more parts
    have verb : '\n' ∉ (String.ofList (upper first)).toList := by
      rw [String.toList_ofList]
      exact newline_upper (word (n := 1) (by simp [parts]))
    dsimp only
    split
    · split
      · rename_i key value parts
        exact ⟨verb, words (l := [key, value]) fun w m => word (n := 2) (by rw [parts]; simp at m ⊢; tauto)⟩
      · exact ⟨verb, words fun w m => word (List.mem_of_mem_tail m)⟩
    · refine ⟨verb, words fun w m there => ?_⟩
      exact word (n := 1) (w := rest) (by simp [parts]) (split_subset m there)

/-- Neither the arguments of a request nor the message of an error hold a line feed. -/
def FreeOfNewline (parsed : Except LiteStoreError CommandRequest) : Prop :=
  (∀ request, parsed = .ok request → ∀ a ∈ request.args, '\n' ∉ a.toList) ∧
    ∀ error, parsed = .error error → '\n' ∉ error.message.toList

theorem free_ok {request : CommandRequest} (free : ∀ a ∈ request.args, '\n' ∉ a.toList) :
    FreeOfNewline (.ok request) := ⟨by rintro _ ⟨⟩; exact free, by rintro _ ⟨⟩⟩

theorem free_error {error : LiteStoreError} (free : '\n' ∉ error.message.toList) :
    FreeOfNewline (.error error) := ⟨by rintro _ ⟨⟩, by rintro _ ⟨⟩; exact free⟩

/-- The message of a wrong number of arguments. -/
theorem newline_arity {command : String} (named : '\n' ∉ command.toList) (expected received : Nat) :
    '\n' ∉ (s!"{command} expects {expected} argument(s), received {received}").toList := by
  have stated := newline_append named (t := " expects ") (by decide)
  have wanted := newline_append (newline_append stated (newline_nat expected))
    (t := " argument(s), received ") (by decide)
  exact newline_append wanted (newline_nat received)

theorem free_arity {verb : String} {args : List String} {expected : Nat} {request : CommandRequest}
    (named : '\n' ∉ verb.toList) (free : ∀ a ∈ request.args, '\n' ∉ a.toList) :
    FreeOfNewline (do ensureArity verb args expected; return request) := by
  unfold ensureArity
  split
  · exact free_error (newline_arity named expected args.length)
  · exact free_ok free

/-- **A line without a line feed** gives neither an argument nor an error message with one. -/
theorem parseCommand_newline {rawCommand : String} {requestId clientId : Option String}
    (free : '\n' ∉ strip rawCommand.toList) : FreeOfNewline (parseCommand rawCommand requestId clientId) := by
  unfold parseCommand
  dsimp only
  split
  · exact free_error (by decide)
  obtain ⟨named, args⟩ := splitCommand_newline free
  have none : ∀ a ∈ ([] : List String), '\n' ∉ a.toList := by rintro a ⟨⟩
  split
  case h_7 =>
    split
    · apply free_error
      show '\n' ∉ "MGET requires at least 1 key".toList
      decide
    · exact free_ok args
  case h_8 =>
    split
    · apply free_error
      show '\n' ∉ "KEYS accepts 0 or 1 arguments".toList
      decide
    · exact free_ok args
  case h_10 => exact free_error (newline_append (s := "Unsupported command: ") (by decide) named)
  case h_1 => exact free_arity named none
  case h_9 => exact free_arity named none
  all_goals exact free_arity named args

end LiteStore
