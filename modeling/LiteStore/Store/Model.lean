import LiteStore.Py.Text
import LiteStore.Wheel.Model

/-!
# The in-memory store

`src/store.py` over any timestamps. `_time_source` is not a field: each operation
is given the readings its `time_source()` calls return, in order (`Clock`), and a
nested operation gets the readings from its own first call on.
-/

namespace LiteStore
set_option autoImplicit false
open Py

/-- The state of a `MemoryStore`. -/
structure MemoryStore (τ : Type) [LinearOrder τ] [Zero τ] where
  data : Dict String String
  expiresAt : Dict String τ
  timingWheel : TimingWheel τ
deriving DecidableEq

namespace MemoryStore
variable {τ : Type} [LinearOrder τ] [Zero τ]

/-- A store without keys on the wheel given to its constructor. -/
def fresh (wheel : TimingWheel τ) : MemoryStore τ := ⟨Dict.empty, Dict.empty, wheel⟩

/-- `_clear_expiry`. -/
def clearExpiry (s : MemoryStore τ) (key : String) : MemoryStore τ :=
  { s with expiresAt := s.expiresAt.erase key, timingWheel := s.timingWheel.cancel key }

/-- `_data[key] = value` and `_clear_expiry(key)`. -/
def put (s : MemoryStore τ) (key value : String) : MemoryStore τ :=
  { s with data := s.data.set key value }.clearExpiry key

/-- `del _data[key]` and `_clear_expiry(key)`. -/
def remove (s : MemoryStore τ) (key : String) : MemoryStore τ :=
  { s with data := s.data.erase key }.clearExpiry key

/-- One entry of the loop of `process_expirations`. -/
def dropEntry (now : τ) (acc : Nat × MemoryStore τ) (entry : TimerEntry τ) : Nat × MemoryStore τ :=
  let (expired, s) := acc
  match s.expiresAt.get? entry.key with
  | none => (expired, s)
  | some expiresAt =>
    if expiresAt > now then (expired, s)
    else
      let cleared := { s with expiresAt := s.expiresAt.erase entry.key }
      if s.data.contains entry.key then
        (expired + 1, { cleared with data := s.data.erase entry.key })
      else (expired, cleared)

variable {m : Type → Type} [Monad m] [TimeArith m τ]

/-- `process_expirations` once the current time is known. -/
def drainDue (s : MemoryStore τ) (now : τ) : m (Nat × MemoryStore τ) := do
  let (due, wheel) ← s.timingWheel.popDue now
  return due.foldl (dropEntry now) (0, { s with timingWheel := wheel })

/-- `process_expirations(now)`: the number of keys removed. -/
def processExpirations (s : MemoryStore τ) (clock : Clock τ) (now : Option τ) :
    m (Nat × MemoryStore τ) :=
  s.drainDue (now.getD (clock 0))

/-- `set`. -/
def set (s : MemoryStore τ) (clock : Clock τ) (key value : String) : m (MemoryStore τ) := do
  let (_, s) ← s.processExpirations clock none
  return s.put key value

/-- `get`. -/
def get (s : MemoryStore τ) (clock : Clock τ) (key : String) : m (Option String × MemoryStore τ) := do
  let (_, s) ← s.processExpirations clock none
  return (s.data.get? key, s)

/-- `delete`: whether a key was deleted. -/
def delete (s : MemoryStore τ) (clock : Clock τ) (key : String) : m (Bool × MemoryStore τ) := do
  let (_, s) ← s.processExpirations clock none
  return if s.data.contains key then (true, s.remove key) else (false, s)

/-- `expire`: whether the key existed. -/
def expire (s : MemoryStore τ) (clock : Clock τ) (key : String) (ttlSeconds : Int) :
    m (Bool × MemoryStore τ) := do
  let (_, s) ← s.processExpirations clock none
  if !s.data.contains key then
    return (false, s)
  if ttlSeconds ≤ 0 then
    let (_, s) ← s.delete (clock.drop 1) key
    return (true, s)
  let expiresAt ← TimeArith.addSeconds (clock 1) ttlSeconds
  let wheel ← s.timingWheel.schedule key expiresAt
  return (true, { s with expiresAt := s.expiresAt.set key expiresAt, timingWheel := wheel })

/-- `ttl`: the seconds left, `-1` without a deadline, `-2` without the key. -/
def ttl (s : MemoryStore τ) (clock : Clock τ) (key : String) : m (Int × MemoryStore τ) := do
  let (_, s) ← s.processExpirations clock none
  if !s.data.contains key then
    return (-2, s)
  match s.expiresAt.get? key with
  | none => return (-1, s)
  | some expiresAt =>
    let remaining ← TimeArith.wholeSeconds expiresAt (clock 1)
    if remaining < 0 then
      let (_, s) ← s.delete (clock.drop 2) key
      return (-2, s)
    return (remaining, s)

/-- `snapshot`. -/
def snapshot (s : MemoryStore τ) (clock : Clock τ) : m (Dict String String × MemoryStore τ) := do
  let (_, s) ← s.processExpirations clock none
  return (s.data, s)

/-- `keys`: the live keys matching a glob pattern. -/
def keys (s : MemoryStore τ) (clock : Clock τ) (pattern : String) :
    m (List String × MemoryStore τ) := do
  let (_, s) ← s.processExpirations clock none
  return (s.data.keys.filter fun k => fnmatch k pattern, s)

/-- `flush`: the number of keys deleted. The new wheel is the default one. -/
def flush [Timestamp τ] (s : MemoryStore τ) (clock : Clock τ) : m (Nat × MemoryStore τ) := do
  let (_, s) ← s.processExpirations clock none
  return (s.data.size, fresh TimingWheel.default)

/-- `apply_replay_request`. -/
def applyReplayRequest [Timestamp τ] (s : MemoryStore τ) (clock : Clock τ)
    (request : CommandRequest) : m (MemoryStore τ) := do
  let (_, s) ← s.processExpirations clock none
  let clock := clock.drop 1
  match request.command, request.args with
  | .SET, [key, value] => s.set clock key value
  | .DEL, [key] => do
    let (_, s) ← s.delete clock key
    return s
  | .EXPIRE, [key, secondsRaw] =>
    match int? secondsRaw with
    | none => return s
    | some seconds => do
      let (_, s) ← s.expire clock key seconds
      return s
  | .FLUSHALL, [] => do
    let (_, s) ← s.flush clock
    return s
  | _, _ => return s

end MemoryStore
end LiteStore
