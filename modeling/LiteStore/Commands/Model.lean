import LiteStore.Store.Model

/-!
# Command execution

`execute_command` of `src/commands.py`: the arity of each command, its call of the
store and its response. A request's command is a `CommandName`, so the final
"Unsupported command" response is out of reach and has no branch here.
-/

namespace LiteStore
set_option autoImplicit false
open Py

/-- `_wrong_arity_response`. -/
def wrongArityResponse (request : CommandRequest) (expected : Nat) : CommandResponse where
  kind := .ERROR
  errorCode := some .WRONG_ARITY
  message := some
    s!"{request.command.value} expects {expected} argument(s), received {request.args.length}"
  requestId := request.requestId

/-- An error response of `execute_command`. -/
def errorResponse (request : CommandRequest) (code : ErrorCode) (message : String) :
    CommandResponse where
  kind := .ERROR
  errorCode := some code
  message := some message
  requestId := request.requestId

def simpleStringResponse (request : CommandRequest) (message : String) : CommandResponse where
  kind := .SIMPLE_STRING
  message := some message
  requestId := request.requestId

def integerResponse (request : CommandRequest) (n : Int) : CommandResponse where
  kind := .INTEGER
  integer := some n
  requestId := request.requestId

/-- The response to `GET`: a missing key is `NULL`. -/
def valueResponse (request : CommandRequest) : Option String → CommandResponse
  | none => { kind := .NULL, requestId := request.requestId }
  | some value => { kind := .BULK_STRING, value := some value, requestId := request.requestId }

def arrayResponse (request : CommandRequest) (values : List (Option String)) : CommandResponse where
  kind := .ARRAY
  values := values
  requestId := request.requestId

/-- The test that the worker process and the in-process runtime make before they log a request. -/
def mutates (request : CommandRequest) (response : CommandResponse) : Bool :=
  if response.kind = .ERROR then false
  else match request.command with
    | .SET => true
    | .DEL => true
    | .EXPIRE => response.integer = some 1
    | _ => false

/-- `_parse_ttl_seconds`. -/
def parseTtlSeconds (secondsRaw : String) : Option Int := int? secondsRaw

variable {τ : Type} [LinearOrder τ] [Zero τ] {m : Type → Type} [Monad m] [TimeArith m τ]

/-- `tuple(store.get(k) for k in keys)`. -/
def getAll (s : MemoryStore τ) (clock : Clock τ) :
    List String → m (List (Option String) × MemoryStore τ)
  | [] => return ([], s)
  | k :: keys => do
    let (value, s) ← s.get clock k
    let (values, s) ← getAll s (clock.drop 1) keys
    return (value :: values, s)

/-- `execute_command`. -/
def executeCommand [Timestamp τ] (request : CommandRequest) (s : MemoryStore τ) (clock : Clock τ) :
    m (CommandResponse × MemoryStore τ) :=
  match request.command with
  | .PING =>
    match request.args with
    | [] => return (simpleStringResponse request "PONG", s)
    | _ => return (wrongArityResponse request 0, s)
  | .SET =>
    match request.args with
    | [key, value] => do
      let s ← s.set clock key value
      return (simpleStringResponse request "OK", s)
    | _ => return (wrongArityResponse request 2, s)
  | .GET =>
    match request.args with
    | [key] => do
      let (result, s) ← s.get clock key
      return (valueResponse request result, s)
    | _ => return (wrongArityResponse request 1, s)
  | .DEL =>
    match request.args with
    | [key] => do
      let (deleted, s) ← s.delete clock key
      return (integerResponse request (if deleted then 1 else 0), s)
    | _ => return (wrongArityResponse request 1, s)
  | .EXPIRE =>
    match request.args with
    | [key, secondsRaw] =>
      match parseTtlSeconds secondsRaw with
      | none =>
        return (errorResponse request .INVALID_REQUEST "EXPIRE seconds must be an integer", s)
      | some seconds => do
        let (expiredSet, s) ← s.expire clock key seconds
        return (integerResponse request (if expiredSet then 1 else 0), s)
    | _ => return (wrongArityResponse request 2, s)
  | .TTL =>
    match request.args with
    | [key] => do
      let (remaining, s) ← s.ttl clock key
      return (integerResponse request remaining, s)
    | _ => return (wrongArityResponse request 1, s)
  | .MGET =>
    match request.args with
    | [] => return (errorResponse request .WRONG_ARITY "MGET requires at least 1 key", s)
    | keys => do
      let (values, s) ← getAll s clock keys
      return (arrayResponse request values, s)
  | .KEYS =>
    if request.args.length > 1 then
      return (errorResponse request .WRONG_ARITY "KEYS accepts 0 or 1 arguments", s)
    else do
      let (matched, s) ← s.keys clock (request.args.headD "*")
      return (arrayResponse request (matched.map some), s)
  | .FLUSHALL =>
    match request.args with
    | [] => do
      let (count, s) ← s.flush clock
      return (integerResponse request count, s)
    | _ => return (wrongArityResponse request 0, s)

end LiteStore
