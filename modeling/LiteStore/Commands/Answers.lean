import LiteStore.Commands.Model

/-!
# What a command answers

Every response of `execute_command` has one of the shapes of `Answer`, and an
error is answered before the store is touched. An expiry pass removes keys whose
deadline has come and leaves the others as they are (`SameButDue`), whatever the
timestamps and their arithmetic.
-/

namespace LiteStore
set_option autoImplicit false
open Py

/-- The error responses with a fixed text. -/
def fixedErrors : List (ErrorCode × String) :=
  [(.INVALID_REQUEST, "EXPIRE seconds must be an integer"), (.WRONG_ARITY, "MGET requires at least 1 key"),
   (.WRONG_ARITY, "KEYS accepts 0 or 1 arguments")]

/-- The responses a request can get. -/
inductive Answer (request : CommandRequest) : CommandResponse → Prop
  | simpleString (message : String) (known : message ∈ ["PONG", "OK"]) :
      Answer request (simpleStringResponse request message)
  | integer (n : Int) : Answer request (integerResponse request n)
  | value (v : Option String) : Answer request (valueResponse request v)
  | array (values : List (Option String)) : Answer request (arrayResponse request values)
  | wrongArity (expected : Nat) : Answer request (wrongArityResponse request expected)
  | error (code : ErrorCode) (message : String)
      (known : (code, message) ∈ fixedErrors) :
      Answer request (errorResponse request code message)

/-- No command answers that a log append has failed. -/
theorem Answer.errorCode_ne {request : CommandRequest} {response : CommandResponse}
    (answer : Answer request response) : response.errorCode ≠ some .PERSISTENCE_ERROR := by
  cases answer with
  | value v => cases v <;> simp [valueResponse]
  | error code message known =>
    rintro ⟨⟩
    simp [fixedErrors] at known
  | _ => simp [simpleStringResponse, integerResponse, arrayResponse, wrongArityResponse]

/-- Every answer has the id of its request. -/
theorem Answer.requestId_eq {request : CommandRequest} {response : CommandResponse}
    (answer : Answer request response) : response.requestId = request.requestId := by
  cases answer with
  | value v => cases v <;> rfl
  | _ => rfl

section Generic

variable {τ : Type} [LinearOrder τ] [Zero τ] [Timestamp τ] {m : Type → Type} [PyMonad m] [TimeArith m τ]
  {s : MemoryStore τ} {clock : Clock τ}

/-- What `execute_command` does for a request: it refuses it, or makes one call of the store and
answers with what the call returned. -/
inductive Ran (m : Type → Type) [PyMonad m] [TimeArith m τ] (request : CommandRequest) (s : MemoryStore τ)
    (clock : Clock τ) : CommandResponse × MemoryStore τ → Prop
  | wrongArity (expected : Nat) : Ran m request s clock (wrongArityResponse request expected, s)
  | error (code : ErrorCode) (message : String) (known : (code, message) ∈ fixedErrors) :
      Ran m request s clock (errorResponse request code message, s)
  | ping : Ran m request s clock (simpleStringResponse request "PONG", s)
  | set {key value : String} (args : request.args = [key, value]) {s' : MemoryStore τ}
      (done : PyMonad.outcome (s.set (m := m) clock key value) = .ok s') :
      Ran m request s clock (simpleStringResponse request "OK", s')
  | get {key : String} {r : Option String × MemoryStore τ}
      (done : PyMonad.outcome (s.get (m := m) clock key) = .ok r) :
      Ran m request s clock (valueResponse request r.1, r.2)
  | delete {key : String} {r : Bool × MemoryStore τ}
      (done : PyMonad.outcome (s.delete (m := m) clock key) = .ok r) :
      Ran m request s clock (integerResponse request (if r.1 then 1 else 0), r.2)
  | expire {key : String} {seconds : Int} {r : Bool × MemoryStore τ}
      (done : PyMonad.outcome (s.expire (m := m) clock key seconds) = .ok r) :
      Ran m request s clock (integerResponse request (if r.1 then 1 else 0), r.2)
  | ttl {key : String} {r : Int × MemoryStore τ}
      (done : PyMonad.outcome (s.ttl (m := m) clock key) = .ok r) :
      Ran m request s clock (integerResponse request r.1, r.2)
  | mget {r : List (Option String) × MemoryStore τ}
      (done : PyMonad.outcome (getAll (m := m) s clock request.args) = .ok r) :
      Ran m request s clock (arrayResponse request r.1, r.2)
  | keys {pattern : String} {r : List String × MemoryStore τ}
      (done : PyMonad.outcome (s.keys (m := m) clock pattern) = .ok r) :
      Ran m request s clock (arrayResponse request (r.1.map some), r.2)
  | flush {r : Nat × MemoryStore τ}
      (done : PyMonad.outcome (s.flush (m := m) clock) = .ok r) :
      Ran m request s clock (integerResponse request r.1, r.2)

/-- **Every run** of `execute_command`. -/
theorem executeCommand_ran {request : CommandRequest} {r : CommandResponse × MemoryStore τ}
    (done : PyMonad.outcome (executeCommand (m := m) request s clock) = .ok r) : Ran m request s clock r := by
  obtain ⟨command, args, i, j⟩ := request
  -- A wrong number of arguments is answered without a call.
  have arity {request : CommandRequest} {n : Nat}
      (done : PyMonad.outcome (pure (wrongArityResponse request n, s) : m _) = .ok r) :
      Ran m request s clock r := by
    rw [PyMonad.outcome_pure] at done
    cases done
    exact .wrongArity n
  have error {request : CommandRequest} {code : ErrorCode} {message : String}
      (known : (code, message) ∈ fixedErrors)
      (done : PyMonad.outcome (pure (errorResponse request code message, s) : m _) = .ok r) :
      Ran m request s clock r := by
    rw [PyMonad.outcome_pure] at done
    cases done
    exact .error code message known
  -- Otherwise one call is made, and its result is answered.
  have call {α : Type} {x : m α} {f : α → CommandResponse × MemoryStore τ}
      (done : PyMonad.outcome (x >>= fun a => pure (f a)) = .ok r) :
      ∃ a, PyMonad.outcome x = .ok a ∧ r = f a := by
    rw [PyMonad.outcome_bind, bind_eq_ok] at done
    obtain ⟨a, ran, same⟩ := done
    rw [PyMonad.outcome_pure] at same
    exact ⟨a, ran, (Except.ok.inj same).symm⟩
  cases command
  case PING =>
    rcases args with _ | ⟨key, rest⟩
    · simp only [executeCommand, PyMonad.outcome_pure, Except.ok.injEq] at done
      cases done
      exact .ping
    · exact arity done
  case SET =>
    rcases args with _ | ⟨key, _ | ⟨value, _ | ⟨more, rest⟩⟩⟩
    case cons.cons.nil =>
      obtain ⟨_, stored, rfl⟩ := call done
      exact .set rfl stored
    all_goals exact arity done
  case GET =>
    rcases args with _ | ⟨key, _ | ⟨more, rest⟩⟩
    case cons.nil =>
      obtain ⟨_, got, rfl⟩ := call done
      exact .get got
    all_goals exact arity done
  case DEL =>
    rcases args with _ | ⟨key, _ | ⟨more, rest⟩⟩
    case cons.nil =>
      obtain ⟨_, deleted, rfl⟩ := call done
      exact .delete deleted
    all_goals exact arity done
  case EXPIRE =>
    rcases args with _ | ⟨key, _ | ⟨secondsRaw, _ | ⟨more, rest⟩⟩⟩
    case cons.cons.nil =>
      cases parsed : parseTtlSeconds secondsRaw with
      | none =>
        simp only [executeCommand, parsed] at done
        exact error (by simp [fixedErrors]) done
      | some seconds =>
        simp only [executeCommand, parsed] at done
        obtain ⟨_, timed, rfl⟩ := call done
        exact .expire timed
    all_goals exact arity done
  case TTL =>
    rcases args with _ | ⟨key, _ | ⟨more, rest⟩⟩
    case cons.nil =>
      obtain ⟨_, asked, rfl⟩ := call done
      exact .ttl asked
    all_goals exact arity done
  case MGET =>
    rcases args with _ | ⟨key, keys⟩
    · exact error (by simp [fixedErrors]) done
    · obtain ⟨_, got, rfl⟩ := call done
      exact .mget got
  case KEYS =>
    simp only [executeCommand] at done
    split at done
    · exact error (by simp [fixedErrors]) done
    · obtain ⟨_, matched, rfl⟩ := call done
      exact .keys matched
  case FLUSHALL =>
    rcases args with _ | ⟨key, rest⟩
    · obtain ⟨_, flushed, rfl⟩ := call done
      exact .flush flushed
    · exact arity done

theorem valueResponse_kind (request : CommandRequest) (v : Option String) :
    (valueResponse request v).kind ≠ .ERROR := by
  cases v <;> simp [valueResponse]

/-- A response has a known shape, and leaves the store as it is if it is an error. -/
def Harmless (request : CommandRequest) (s : MemoryStore τ) (r : CommandResponse × MemoryStore τ) : Prop :=
  Answer request r.1 ∧ (r.1.kind = .ERROR → r.2 = s)

omit [Timestamp τ] in
/-- A response that is not an error may come with any store. -/
theorem harmless_of_ok {request : CommandRequest} {response : CommandResponse} {s' : MemoryStore τ}
    (answer : Answer request response) (fine : response.kind ≠ .ERROR) :
    Harmless request s (response, s') := ⟨answer, fun error => absurd error fine⟩

/-- **Every response** of `execute_command`. -/
theorem executeCommand_harmless {request : CommandRequest} {r : CommandResponse × MemoryStore τ}
    (done : PyMonad.outcome (executeCommand (m := m) request s clock) = .ok r) : Harmless request s r := by
  have integer (n : Int) (s' : MemoryStore τ) : Harmless request s (integerResponse request n, s') :=
    harmless_of_ok (.integer n) (by simp [integerResponse])
  have array (values : List (Option String)) (s' : MemoryStore τ) :
      Harmless request s (arrayResponse request values, s') :=
    harmless_of_ok (.array values) (by simp [arrayResponse])
  cases executeCommand_ran done with
  | wrongArity expected => exact ⟨.wrongArity expected, fun _ => rfl⟩
  | error code message known => exact ⟨.error code message known, fun _ => rfl⟩
  | ping => exact harmless_of_ok (.simpleString "PONG" (by simp)) (by simp [simpleStringResponse])
  | set args done => exact harmless_of_ok (.simpleString "OK" (by simp)) (by simp [simpleStringResponse])
  | get done => exact harmless_of_ok (.value _) (valueResponse_kind _ _)
  | delete done => exact integer _ _
  | expire done => exact integer _ _
  | ttl done => exact integer _ _
  | mget done => exact array _ _
  | keys done => exact array _ _
  | flush done => exact integer _ _

end Generic

namespace MemoryStore

variable {τ : Type} [LinearOrder τ] [Zero τ] {s s' s'' : MemoryStore τ} {now : τ}

/-- Each key is as before, value and deadline, or its deadline had come and it is gone. -/
def SameButDue (now : τ) (s s' : MemoryStore τ) : Prop :=
  ∀ k, (s'.data.get? k = s.data.get? k ∧ s'.expiresAt.get? k = s.expiresAt.get? k) ∨
    (s'.data.get? k = none ∧ s'.expiresAt.get? k = none ∧
      ∃ d, s.expiresAt.get? k = some d ∧ d ≤ now)

theorem SameButDue.refl (now : τ) (s : MemoryStore τ) : SameButDue now s s :=
  fun _ => Or.inl ⟨rfl, rfl⟩

theorem SameButDue.trans (first : SameButDue now s s') (second : SameButDue now s' s'') :
    SameButDue now s s'' := by
  intro k
  rcases second k with ⟨data, timed⟩ | ⟨gone, untimed, d, timed, past⟩
  · rw [data, timed]
    exact first k
  · rcases first k with ⟨_, same⟩ | ⟨_, untimed', _⟩
    · exact Or.inr ⟨gone, untimed, d, same ▸ timed, past⟩
    · rw [untimed'] at timed
      cases timed

/-- One entry of a pass. -/
theorem dropEntry_sameButDue (acc : Nat × MemoryStore τ) (entry : TimerEntry τ) :
    SameButDue now acc.2 (dropEntry now acc entry).2 := by
  obtain ⟨n, s⟩ := acc
  simp only [dropEntry]
  cases timed : s.expiresAt.get? entry.key with
  | none => exact SameButDue.refl now s
  | some d =>
    by_cases later : d > now
    · simp only [later, if_true]
      exact SameButDue.refl now s
    · simp only [later, if_false]
      intro k
      by_cases here : k = entry.key
      · subst here
        refine Or.inr ⟨?_, ?_, d, timed, not_lt.mp later⟩
        · split
          · exact Dict.get?_erase_self _ _
          · rename_i absent
            exact Option.not_isSome_iff_eq_none.mp absent
        · split <;> exact Dict.get?_erase_self _ _
      · refine Or.inl ⟨?_, ?_⟩
        · split
          · exact Dict.get?_erase_ne _ here
          · rfl
        · split <;> exact Dict.get?_erase_ne _ here

variable {m : Type → Type} [PyMonad m] [TimeArith m τ]

/-- **A pass** removes only keys whose deadline has come. -/
theorem drainDue_sameButDue {r : Nat × MemoryStore τ}
    (done : PyMonad.outcome (s.drainDue (m := m) now) = .ok r) : SameButDue now s r.2 := by
  rw [drainDue, PyMonad.outcome_bind, bind_eq_ok] at done
  obtain ⟨⟨due, wheel⟩, _, done⟩ := done
  rw [PyMonad.outcome_pure, Except.ok.injEq] at done
  subst done
  have steps (due : List (TimerEntry τ)) (acc : Nat × MemoryStore τ) (start : SameButDue now s acc.2) :
      SameButDue now s (due.foldl (dropEntry now) acc).2 := by
    induction due generalizing acc with
    | nil => exact start
    | cons entry due ih => exact ih _ (start.trans (dropEntry_sameButDue acc entry))
  exact steps due _ (SameButDue.refl now s)

end MemoryStore
end LiteStore
