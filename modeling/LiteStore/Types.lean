import Mathlib.Init

/-!
# Shared contract types

The immutable records of `src/types.py` and the exceptions the modelled code
raises or catches. A request's command is always one of the nine names.
-/

namespace LiteStore
set_option autoImplicit false

/-- Canonical command names. -/
inductive CommandName where
  | PING | SET | GET | DEL | EXPIRE | TTL | MGET | KEYS | FLUSHALL
deriving DecidableEq, Repr

/-- `CommandName.value`. -/
def CommandName.value : CommandName → String
  | PING => "PING"
  | SET => "SET"
  | GET => "GET"
  | DEL => "DEL"
  | EXPIRE => "EXPIRE"
  | TTL => "TTL"
  | MGET => "MGET"
  | KEYS => "KEYS"
  | FLUSHALL => "FLUSHALL"

/-- The members of the enumeration, in its order. -/
def CommandName.members : List CommandName :=
  [PING, SET, GET, DEL, EXPIRE, TTL, MGET, KEYS, FLUSHALL]

/-- `CommandName(value)`; `none` is its `ValueError`. -/
def CommandName.ofValue? (value : String) : Option CommandName :=
  members.find? fun c => c.value = value

@[simp] theorem CommandName.ofValue?_value (c : CommandName) : ofValue? c.value = some c := by
  cases c <;> decide

/-- Response wire-shape category. -/
inductive ResponseKind where
  | SIMPLE_STRING | BULK_STRING | INTEGER | NULL | ERROR | ARRAY
deriving DecidableEq, Repr

/-- Persistence fsync strategy. -/
inductive FsyncPolicy where
  | NEVER | ALWAYS | EVERY_N
deriving DecidableEq, Repr

/-- Stable error codes. -/
inductive ErrorCode where
  | INVALID_REQUEST | UNKNOWN_COMMAND | WRONG_ARITY | KEY_NOT_FOUND | EXPIRED_KEY
  | STORAGE_ERROR | PERSISTENCE_ERROR | ROUTING_ERROR | WORKER_ERROR | INTERNAL_ERROR
deriving DecidableEq, Repr

/-- Parsed client request. -/
structure CommandRequest where
  command : CommandName
  args : List String := []
  requestId : Option String := none
  clientId : Option String := none
deriving DecidableEq, Repr

/-- Normalized command response before serialization. -/
structure CommandResponse where
  kind : ResponseKind
  message : Option String := none
  value : Option String := none
  integer : Option Int := none
  errorCode : Option ErrorCode := none
  requestId : Option String := none
  values : List (Option String) := []
deriving DecidableEq, Repr

/-- One record of the append-only log. -/
structure PersistRecord where
  sequence : Int
  request : CommandRequest
deriving DecidableEq, Repr

/-- The partition and worker a key is routed to. -/
structure KeyRoute where
  partitionId : Nat
  workerId : String
deriving DecidableEq, Repr

/-- Request sent to a worker process. -/
structure WorkerRequest where
  requestId : String
  command : CommandName
  args : List String
  clientId : Option String := none
deriving DecidableEq, Repr

/-- Response sent back by a worker process. -/
structure WorkerResponse where
  requestId : String
  kind : ResponseKind
  message : Option String := none
  value : Option String := none
  integer : Option Int := none
  errorCode : Option ErrorCode := none
deriving DecidableEq, Repr

/-- Control message for a worker process. -/
structure WorkerControl where
  action : String
  requestId : Option String := none
deriving DecidableEq, Repr

/-- The exceptions that leave or are caught by the modelled code. `osError` carries
`str(exc)`, which the server quotes. -/
inductive PyError where
  | overflowError
  | osError (text : String)
  | valueError
  | jsonDecodeError
  | unicodeDecodeError
deriving DecidableEq, Repr

end LiteStore
