import LiteStore.Commands.Exact

/-!
# Commands on a store without deadlines

A store without deadlines is a dictionary: no pass removes anything, and every
command answers and acts as `dataCommand` does on the dictionary alone
(`executeCommand_plain`). Only `EXPIRE` can bring a deadline in.
-/

namespace LiteStore
set_option autoImplicit false
open Py MemoryStore

/-- What a command means on a dictionary: its response and the dictionary after it. -/
def dataCommand (request : CommandRequest) (d : Dict String String) :
    CommandResponse × Dict String String :=
  match request.command, request.args with
  | .PING, [] => (simpleStringResponse request "PONG", d)
  | .PING, _ => (wrongArityResponse request 0, d)
  | .SET, [key, value] => (simpleStringResponse request "OK", d.set key value)
  | .SET, _ => (wrongArityResponse request 2, d)
  | .GET, [key] => (valueResponse request (d.get? key), d)
  | .GET, _ => (wrongArityResponse request 1, d)
  | .DEL, [key] => (integerResponse request (if d.contains key then 1 else 0), d.erase key)
  | .DEL, _ => (wrongArityResponse request 1, d)
  | .EXPIRE, [key, secondsRaw] =>
    match parseTtlSeconds secondsRaw with
    | none => (errorResponse request .INVALID_REQUEST "EXPIRE seconds must be an integer", d)
    | some seconds => (integerResponse request (if d.contains key then 1 else 0),
        if seconds ≤ 0 then d.erase key else d)
  | .EXPIRE, _ => (wrongArityResponse request 2, d)
  | .TTL, [key] => (integerResponse request (if d.contains key then -1 else -2), d)
  | .TTL, _ => (wrongArityResponse request 1, d)
  | .MGET, [] => (errorResponse request .WRONG_ARITY "MGET requires at least 1 key", d)
  | .MGET, keys => (arrayResponse request (keys.map d.get?), d)
  | .KEYS, args =>
    if args.length > 1 then
      (errorResponse request .WRONG_ARITY "KEYS accepts 0 or 1 arguments", d)
    else (arrayResponse request ((d.keys.filter fun k => fnmatch k (args.headD "*")).map some), d)
  | .FLUSHALL, [] => (integerResponse request d.size, Dict.empty)
  | .FLUSHALL, _ => (wrongArityResponse request 0, d)

theorem dataCommand_keys (args : List String) (i j : Option String) (d : Dict String String) :
    (dataCommand ⟨.KEYS, args, i, j⟩ d).2 = d := by
  simp only [dataCommand]
  split <;> rfl

namespace MemoryStore

/-- A valid store without deadlines. -/
structure Plain (s : MemoryStore ℚ) : Prop extends Valid s where
  untimed : ∀ k, s.expiresAt.get? k = none

variable {s : MemoryStore ℚ}

theorem fresh_plain {w : TimingWheel ℚ} (h : w.Valid) (empty : w.entriesByKey = Dict.empty) :
    (fresh w).Plain :=
  ⟨fresh_valid h empty, fun _ => rfl⟩

theorem flushed_plain : (fresh TimingWheel.default : MemoryStore ℚ).Plain :=
  fresh_plain (TimingWheel.fresh_valid _ _ _ _) rfl

theorem Plain.not_due (h : s.Plain) (t : ℚ) (key : String) : ¬ s.Due t key := by
  intro due
  obtain ⟨d, timed, _⟩ := due.deadline h.toValid
  rw [h.untimed] at timed
  cases timed

/-- A pass changes nothing but the wheel's position. -/
theorem Plain.pass_data (h : s.Plain) (t : ℚ) : (s.pass t).data = s.data := by
  have none : (Id.run (s.timingWheel.popDue t)).1.map TimerEntry.key = [] :=
    List.eq_nil_iff_forall_not_mem.mpr fun key member =>
      h.not_due t key ((mem_due_iff h.toValid t key).mp member)
  rw [pass, drainDue_eq h.toValid, none]
  simpa using Dict.filter_true s.data

theorem Plain.pass (h : s.Plain) (t : ℚ) : (s.pass t).Plain := by
  refine ⟨pass_valid h.toValid t, fun k => Option.eq_none_iff_forall_ne_some.mpr fun d timed => ?_⟩
  have timed := ((pass_expiresAt h.toValid t k d).mp timed).1
  rw [h.untimed] at timed
  cases timed

theorem Plain.put (h : s.Plain) (key value : String) : (s.put key value).Plain := by
  refine ⟨put_valid h.toValid key value, fun k => ?_⟩
  rw [put_expiresAt, h.untimed]
  split <;> rfl

theorem Plain.removeIfHeld (h : s.Plain) (key : String) : (s.removeIfHeld key).Plain := by
  refine ⟨removeIfHeld_valid h.toValid key, fun k => ?_⟩
  rw [removeIfHeld_expiresAt h.toValid, h.untimed]
  split <;> rfl

theorem removeIfHeld_erase (s : MemoryStore ℚ) (key : String) :
    (s.removeIfHeld key).data = s.data.erase key := by
  unfold MemoryStore.removeIfHeld
  split
  · rfl
  · rename_i absent
    rw [Dict.erase_of_absent (Option.not_isSome_iff_eq_none.mp absent)]

theorem Plain.delete (h : s.Plain) (clock : Clock ℚ) (key : String) :
    let q := Id.run (s.delete clock key)
    q.1 = s.data.contains key ∧ q.2.data = s.data.erase key ∧ q.2.Plain := by
  have data := h.pass_data (clock 0)
  rw [delete_exact]
  refine ⟨congrArg (fun d => d.contains key) data, ?_, (h.pass (clock 0)).removeIfHeld key⟩
  rw [removeIfHeld_erase, data]

theorem Plain.expire (h : s.Plain) (clock : Clock ℚ) (key : String) (seconds : Int) :
    let q := Id.run (s.expire clock key seconds)
    q.1 = s.data.contains key ∧ q.2.data = if seconds ≤ 0 then s.data.erase key else s.data := by
  have data := h.pass_data (clock 0)
  rw [expire_exact, data]
  cases held : s.data.contains key with
  | true =>
    rw [if_pos rfl]
    split
    · refine ⟨rfl, ?_⟩
      rw [removeIfHeld_erase, (h.pass (clock 0)).pass_data, data]
    · exact ⟨rfl, data⟩
  | false =>
    have absent : s.data.get? key = none := Option.isNone_iff_eq_none.mp (Option.isSome_eq_false_iff.mp held)
    rw [if_neg Bool.false_ne_true, Dict.erase_of_absent absent, ite_self]
    exact ⟨rfl, data⟩

theorem Plain.ttl (h : s.Plain) (clock : Clock ℚ) (key : String) :
    let q := Id.run (s.ttl clock key)
    q.1 = (if s.data.contains key then -1 else -2) ∧ q.2.data = s.data ∧ q.2.Plain := by
  have data := h.pass_data (clock 0)
  have pass := h.pass (clock 0)
  rw [ttl_exact, data, pass.untimed]
  split <;> exact ⟨rfl, data, pass⟩

theorem Plain.getAll (h : s.Plain) (clock : Clock ℚ) (keys : List String) :
    (Id.run (getAll s clock keys)).1 = keys.map s.data.get? ∧
      (Id.run (LiteStore.getAll s clock keys)).2.data = s.data ∧
      (Id.run (LiteStore.getAll s clock keys)).2.Plain := by
  induction keys generalizing s clock with
  | nil => exact ⟨rfl, rfl, h⟩
  | cons k keys ih =>
    obtain ⟨values, data, plain⟩ := ih (h.pass (clock 0)) (clock.drop 1)
    have same := h.pass_data (clock 0)
    rw [same] at values data
    rw [getAll_cons]
    exact ⟨by simp only [values, same, List.map_cons], data, plain⟩

end MemoryStore

/-- **On a store without deadlines a command is what it means on the dictionary.** -/
theorem executeCommand_plain {s : MemoryStore ℚ} (h : s.Plain) (request : CommandRequest)
    (clock : Clock ℚ) :
    let r := Id.run (executeCommand request s clock)
    r.1 = (dataCommand request s.data).1 ∧ r.2.data = (dataCommand request s.data).2 ∧
      (request.command ≠ .EXPIRE → r.2.Plain) := by
  obtain ⟨command, args, requestId, clientId⟩ := request
  set request : CommandRequest := ⟨command, args, requestId, clientId⟩ with hrequest
  have pass := h.pass (clock 0)
  have data := h.pass_data (clock 0)
  cases command with
  | PING => rcases args with _ | ⟨key, rest⟩ <;> exact ⟨rfl, rfl, fun _ => h⟩
  | SET =>
    rcases args with _ | ⟨key, _ | ⟨value, _ | ⟨more, rest⟩⟩⟩
    case cons.cons.nil =>
      exact ⟨rfl, congrArg (fun d => d.set key value) data, fun _ => pass.put key value⟩
    all_goals exact ⟨rfl, rfl, fun _ => h⟩
  | GET =>
    rcases args with _ | ⟨key, _ | ⟨more, rest⟩⟩
    case cons.nil =>
      exact ⟨congrArg (fun d : Dict String String => valueResponse request (d.get? key)) data, data, fun _ => pass⟩
    all_goals exact ⟨rfl, rfl, fun _ => h⟩
  | DEL =>
    rcases args with _ | ⟨key, _ | ⟨more, rest⟩⟩
    case cons.nil =>
      obtain ⟨held, data, plain⟩ := h.delete clock key
      exact ⟨congrArg (fun b : Bool => integerResponse request (if b then 1 else 0)) held, data,
        fun _ => plain⟩
    all_goals exact ⟨rfl, rfl, fun _ => h⟩
  | EXPIRE =>
    rcases args with _ | ⟨key, _ | ⟨secondsRaw, _ | ⟨more, rest⟩⟩⟩
    case cons.cons.nil =>
      cases parsed : parseTtlSeconds secondsRaw with
      | none =>
        simp only [executeCommand, dataCommand, hrequest, parsed]
        exact ⟨rfl, rfl, fun _ => h⟩
      | some seconds =>
        obtain ⟨held, data⟩ := h.expire clock key seconds
        simp only [executeCommand, dataCommand, hrequest, parsed]
        exact ⟨congrArg (fun b : Bool => integerResponse request (if b then 1 else 0)) held, data,
          fun other => (other rfl).elim⟩
    all_goals exact ⟨rfl, rfl, fun _ => h⟩
  | TTL =>
    rcases args with _ | ⟨key, _ | ⟨more, rest⟩⟩
    case cons.nil =>
      obtain ⟨seconds, data, plain⟩ := h.ttl clock key
      exact ⟨congrArg (integerResponse request) seconds, data, fun _ => plain⟩
    all_goals exact ⟨rfl, rfl, fun _ => h⟩
  | MGET =>
    rcases args with _ | ⟨key, keys⟩
    · exact ⟨rfl, rfl, fun _ => h⟩
    · obtain ⟨values, data, plain⟩ := h.getAll clock (key :: keys)
      exact ⟨congrArg (arrayResponse request) values, data, fun _ => plain⟩
  | KEYS =>
    simp only [executeCommand, dataCommand, hrequest]
    split
    · exact ⟨rfl, rfl, fun _ => h⟩
    · refine ⟨?_, data, fun _ => pass⟩
      exact congrArg (fun d : Dict String String => arrayResponse request
        ((d.keys.filter fun k => fnmatch k (args.headD "*")).map some)) data
  | FLUSHALL =>
    rcases args with _ | ⟨key, rest⟩
    · exact ⟨congrArg (fun d : Dict String String => integerResponse request d.size) data, rfl,
        fun _ => flushed_plain⟩
    · exact ⟨rfl, rfl, fun _ => h⟩

end LiteStore
