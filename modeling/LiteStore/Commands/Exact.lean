import LiteStore.Commands.Model
import LiteStore.Store.Calls

/-!
# Commands in exact time

A command is the list of calls `commandCalls` on the store, so every fact about
runs of calls holds of runs of commands (`executeCommand_state`).
-/

namespace LiteStore
set_option autoImplicit false
open Py MemoryStore

/-- The calls of `MGET`. -/
def getCalls (clock : Clock ℚ) : List String → List StoreCall
  | [] => []
  | k :: keys => ⟨.get k, clock⟩ :: getCalls (clock.drop 1) keys

/-- They read their keys, each at later readings than the one before. -/
theorem mem_getCalls {clock : Clock ℚ} {keys : List String} {c : StoreCall} (m : c ∈ getCalls clock keys) :
    ∃ key n, c = ⟨.get key, clock.drop n⟩ := by
  induction keys generalizing clock with
  | nil => cases m
  | cons key keys ih =>
    rcases List.mem_cons.mp m with rfl | later
    · have same : clock.drop 0 = clock := funext fun i => congrArg clock (Nat.zero_add i)
      exact ⟨key, 0, by rw [same]⟩
    · obtain ⟨key', n, rfl⟩ := ih later
      have same : (clock.drop 1).drop n = clock.drop (1 + n) := funext fun i => congrArg clock (Nat.add_assoc 1 n i).symm
      exact ⟨key', 1 + n, by rw [same]⟩

/-- The calls a command makes. -/
def commandCalls (request : CommandRequest) (clock : Clock ℚ) : List StoreCall :=
  match request.command, request.args with
  | .SET, [key, value] => [⟨.set key value, clock⟩]
  | .GET, [key] => [⟨.get key, clock⟩]
  | .DEL, [key] => [⟨.delete key, clock⟩]
  | .EXPIRE, [key, secondsRaw] =>
    match parseTtlSeconds secondsRaw with
    | none => []
    | some seconds => [⟨.expire key seconds, clock⟩]
  | .TTL, [key] => [⟨.ttl key, clock⟩]
  | .MGET, keys => getCalls clock keys
  | .KEYS, [] => [⟨.keys "*", clock⟩]
  | .KEYS, [pattern] => [⟨.keys pattern, clock⟩]
  | .FLUSHALL, [] => [⟨.flush, clock⟩]
  | _, _ => []

theorem getAll_cons (s : MemoryStore ℚ) (clock : Clock ℚ) (k : String) (keys : List String) :
    Id.run (getAll s clock (k :: keys)) =
      let rest := Id.run (getAll (s.pass (clock 0)) (clock.drop 1) keys)
      ((s.pass (clock 0)).data.get? k :: rest.1, rest.2) := rfl

theorem getAll_state (s : MemoryStore ℚ) (clock : Clock ℚ) (keys : List String) :
    (Id.run (getAll s clock keys)).2 = machine.after s (getCalls clock keys) := by
  induction keys generalizing s clock with
  | nil => rfl
  | cons k keys ih =>
    rw [getCalls, Machine.after_cons, ← ih, getAll_cons]
    rfl

/-- A command changes the store by its calls. -/
theorem executeCommand_state (request : CommandRequest) (s : MemoryStore ℚ) (clock : Clock ℚ) :
    (Id.run (executeCommand request s clock)).2 = machine.after s (commandCalls request clock) := by
  obtain ⟨command, args, _, _⟩ := request
  cases command
  case MGET =>
    rcases args with _ | ⟨key, keys⟩
    · rfl
    · exact getAll_state s clock (key :: keys)
  case EXPIRE =>
    rcases args with _ | ⟨key, _ | ⟨value, _ | ⟨more, rest⟩⟩⟩ <;> try rfl
    simp only [executeCommand, commandCalls]
    cases parseTtlSeconds value <;> rfl
  all_goals rcases args with _ | ⟨key, _ | ⟨value, _ | ⟨more, rest⟩⟩⟩ <;> rfl

theorem executeCommand_valid {s : MemoryStore ℚ} (h : s.Valid) (request : CommandRequest)
    (clock : Clock ℚ) : (Id.run (executeCommand request s clock)).2.Valid := by
  rw [executeCommand_state]
  exact run_valid h _

end LiteStore
