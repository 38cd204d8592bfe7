import LiteStore.Commands.Digits
import LiteStore.Protocol.Grammar
import LiteStore.Protocol.Wire

/-!
# Parse, execute, serialize

The server guards the parser alone. The rules it checks are written again in the executor (the number
of arguments) and in the serializer (the fields of a kind), and agree: a line that is accepted is
answered, and its answer can be written, but for a number of more digits than Python writes
(`Unwritable`). That takes a clock that has gone back, or more keys than there can be.
-/

namespace LiteStore
set_option autoImplicit false
open Py MemoryStore

/-- With the right number of arguments only the seconds of `EXPIRE` can be wrong. -/
theorem executeCommand_fits_error {request : CommandRequest}
    (fits : request.Accepted) (s : MemoryStore ℚ) (clock : Clock ℚ) :
    (Id.run (executeCommand request s clock)).1.errorCode ∈ [none, some ErrorCode.INVALID_REQUEST] := by
  obtain ⟨command, args, i, j⟩ := request
  cases command
  case PING | FLUSHALL =>
    obtain rfl := List.eq_nil_of_length_eq_zero fits
    exact List.mem_cons_self
  case SET =>
    obtain ⟨key, value, rfl⟩ := List.length_eq_two.mp fits
    exact List.mem_cons_self
  case GET =>
    obtain ⟨key, rfl⟩ := List.length_eq_one_iff.mp fits
    show (valueResponse _ _).errorCode ∈ _
    unfold valueResponse
    split <;> exact List.mem_cons_self
  case DEL | TTL =>
    obtain ⟨key, rfl⟩ := List.length_eq_one_iff.mp fits
    exact List.mem_cons_self
  case EXPIRE =>
    obtain ⟨key, secondsRaw, rfl⟩ := List.length_eq_two.mp fits
    simp only [executeCommand]
    cases parseTtlSeconds secondsRaw with
    | none => exact List.mem_cons_of_mem _ List.mem_cons_self
    | some seconds => exact List.mem_cons_self
  case MGET =>
    obtain ⟨key, keys, rfl⟩ := List.exists_cons_of_length_pos fits
    exact List.mem_cons_self
  case KEYS =>
    simp only [executeCommand]
    rw [if_neg (Nat.not_lt.mpr fits)]
    exact List.mem_cons_self

/-! ## Numbers that are too long -/

/-- The command answers a number that Python does not write: the time to a deadline that its expiry
pass leaves, or the number of keys that are left. -/
def Unwritable (request : CommandRequest) (s : MemoryStore ℚ) (clock : Clock ℚ) : Prop :=
  match request.command, request.args with
  | .TTL, [key] => ∃ d, s.expiresAt.get? key = some d ∧ ¬ s.Due (clock 0) key ∧
      ((10 ^ maxStrDigits : Nat) : ℚ) ≤ d - clock 1
  | .FLUSHALL, [] => ∃ keys : List String, keys.Nodup ∧ 10 ^ maxStrDigits ≤ keys.length ∧
      ∀ key ∈ keys, s.data.contains key = true ∧ ¬ s.Due (clock 0) key
  | _, _ => False

theorem pow_maxStrDigits_pos : 1 < 10 ^ maxStrDigits := Nat.one_lt_pow (by decide) (by decide)

theorem writable_integer {request : CommandRequest} {n : Int} :
    (integerResponse request n).Writable ↔ n.natAbs < 10 ^ maxStrDigits :=
  ⟨fun short => short n rfl, fun short k same => by cases same; exact short⟩

theorem writable_none {response : CommandResponse} (none : response.integer = none) : response.Writable := by
  intro n some
  rw [none] at some
  cases some

theorem writable_flag (request : CommandRequest) (flag : Bool) :
    (integerResponse request (if flag then 1 else 0)).Writable := by
  have := pow_maxStrDigits_pos
  rw [writable_integer]
  cases flag
  · show 0 < _
    omega
  · exact this

section Long

variable {s : MemoryStore ℚ} (h : s.Valid) (clock : Clock ℚ)
include h

/-- The answer of `ttl` is too long exactly if the deadline is too far ahead. -/
theorem ttl_long_iff (key : String) :
    ¬ (Id.run (s.ttl clock key)).1.natAbs < 10 ^ maxStrDigits ↔
      ∃ d, s.expiresAt.get? key = some d ∧ ¬ s.Due (clock 0) key ∧
        ((10 ^ maxStrDigits : Nat) : ℚ) ≤ d - clock 1 := by
  have one := pow_maxStrDigits_pos
  simp only [← and_assoc, ← pass_expiresAt h]
  rw [ttl_exact]
  cases timed : (s.pass (clock 0)).expiresAt.get? key with
  | none =>
    refine iff_of_false (not_not.mpr ?_) (by rintro ⟨d, ⟨⟩, _⟩)
    split
    · exact one
    · show 2 < _
      exact lt_of_lt_of_le (by decide) (Nat.le_self_pow (by decide) 10)
  | some d =>
    obtain ⟨v, held⟩ := (pass_valid h (clock 0)).held key d timed
    rw [if_pos (Dict.contains_iff.mpr ⟨v, held⟩)]
    simp only [Option.some.injEq, exists_eq_left']
    rw [← le_truncate_iff (Nat.lt_trans Nat.zero_lt_one one)]
    split
    · rename_i negative
      refine iff_of_false (not_not.mpr ?_) (by omega)
      show 2 < _
      exact lt_of_lt_of_le (by decide) (Nat.le_self_pow (by decide) 10)
    · dsimp only
      omega

/-- The answer of `flush` is too long exactly if so many keys are left. -/
theorem flush_long_iff :
    ¬ (Id.run (s.flush clock)).1 < 10 ^ maxStrDigits ↔
      ∃ keys : List String, keys.Nodup ∧ 10 ^ maxStrDigits ≤ keys.length ∧
        ∀ key ∈ keys, s.data.contains key = true ∧ ¬ s.Due (clock 0) key := by
  have count : (Id.run (s.flush clock)).1 = (s.pass (clock 0)).data.keys.length :=
    (Dict.length_keys _).symm
  have left {key : String} : key ∈ (s.pass (clock 0)).data.keys ↔
      s.data.contains key = true ∧ ¬ s.Due (clock 0) key := by
    rw [Dict.mem_keys, Dict.contains_iff]
    simp only [pass_data h, exists_and_right]
  rw [count, not_lt]
  constructor
  · intro many
    exact ⟨_, Dict.keys_nodup _, many, fun key m => left.mp m⟩
  · rintro ⟨keys, distinct, many, each⟩
    exact many.trans (distinct.length_le_of_subset fun key m => left.mpr (each key m))

/-- **What can be written** of the answers of a store. -/
theorem answer_writable_iff (request : CommandRequest) :
    (Id.run (executeCommand request s clock)).1.Writable ↔ ¬ Unwritable request s clock := by
  obtain ⟨command, args, i, j⟩ := request
  -- No other answer has a long number.
  have short {response : CommandResponse} (writable : response.Writable) :
      response.Writable ↔ ¬ False := iff_of_true writable not_false
  cases command
  case TTL =>
    rcases args with _ | ⟨key, _ | ⟨more, rest⟩⟩
    case cons.nil =>
      exact (writable_integer.trans not_not.symm).trans (not_congr (ttl_long_iff h clock key))
    all_goals exact short (writable_none rfl)
  case FLUSHALL =>
    rcases args with _ | ⟨key, rest⟩
    · exact (writable_integer.trans not_not.symm).trans (not_congr (flush_long_iff h clock))
    · exact short (writable_none rfl)
  case DEL =>
    rcases args with _ | ⟨key, _ | ⟨more, rest⟩⟩
    case cons.nil => exact short (writable_flag _ _)
    all_goals exact short (writable_none rfl)
  case EXPIRE =>
    rcases args with _ | ⟨key, _ | ⟨secondsRaw, _ | ⟨more, rest⟩⟩⟩
    case cons.cons.nil =>
      simp only [executeCommand]
      cases parseTtlSeconds secondsRaw with
      | none => exact short (writable_none rfl)
      | some seconds => exact short (writable_flag _ _)
    all_goals exact short (writable_none rfl)
  case KEYS =>
    simp only [executeCommand]
    split <;> exact short (writable_none rfl)
  case GET =>
    rcases args with _ | ⟨key, _ | ⟨more, rest⟩⟩
    case cons.nil =>
      have none (v : Option String) (r : CommandRequest) : (valueResponse r v).integer = none := by
        cases v <;> rfl
      exact short (writable_none (none _ _))
    all_goals exact short (writable_none rfl)
  all_goals
    rcases args with _ | ⟨key, _ | ⟨value, _ | ⟨more, rest⟩⟩⟩ <;> exact short (writable_none rfl)

end Long

/-- No number is too long where the deadlines are near and the keys are few. -/
theorem MemoryStore.Near.writable {s : MemoryStore ℚ} {u : ℚ} {names : List String}
    (near : Near u (10 ^ maxStrDigits : Nat) names s) (few : names.length < 10 ^ maxStrDigits)
    {clock : Clock ℚ} (now : u ≤ clock 1) (request : CommandRequest) : ¬ Unwritable request s clock := by
  unfold Unwritable
  split
  · rintro ⟨d, timed, _, far⟩
    have before := near.deadline _ d timed
    linarith
  · rintro ⟨keys, distinct, many, each⟩
    have among : keys ⊆ names := by
      intro key m
      obtain ⟨v, found⟩ := Dict.contains_iff.mp (each key m).1
      exact near.key key v found
    have short := distinct.length_le_of_subset among
    omega
  · exact not_false

/-! ## The stages -/

/-- **The three stages.** A line that is accepted is neither refused by the executor for its command or
its number of arguments nor left without a text by the serializer, on any store that calls have made,
if and only if its answer is no number that is too long. -/
theorem accepted_line_answered (tick : ℚ) (count : Nat) (tick_pos : 0 < tick) (count_pos : 0 < count)
    (calls : List StoreCall) {rawCommand : String} {requestId clientId : Option String}
    {request : CommandRequest} (parsed : parseCommand rawCommand requestId clientId = .ok request)
    (clock : Clock ℚ) :
    let s := machine.after (start tick count tick_pos count_pos) calls
    let response := (Id.run (executeCommand request s clock)).1
    response.errorCode ≠ some .WRONG_ARITY ∧ response.errorCode ≠ some .UNKNOWN_COMMAND ∧
        response.requestId = request.requestId ∧ (∃ text, serializeResponse response = .ok text) ↔
      ¬ Unwritable request s clock := by
  intro s response
  have error : response.errorCode ∈ [none, some ErrorCode.INVALID_REQUEST] :=
    executeCommand_fits_error (parseCommand_fits parsed) s clock
  have answer : Answer request response := (executeCommand_harmless (m := Id) rfl).1
  rw [serializeResponse_ok_iff answer.sent,
    answer_writable_iff (run_valid (start_valid tick count tick_pos count_pos) calls) clock request]
  refine ⟨fun both => both.2.2.2, fun short => ⟨?_, ?_, answer.requestId_eq, short⟩⟩
  · rintro arity
    simp [arity] at error
  · rintro unknown
    simp [unknown] at error

/-- `EXPIRE` of a key that is not there. -/
theorem absent_expire_answered :
    parseCommand " expire  k 10 \r\n" (some "7") none =
        .ok ⟨.EXPIRE, ["k", "10"], some "7", none⟩ ∧
      let s := machine.after (start 1 1 one_pos Nat.one_pos) []
      let response := (Id.run (executeCommand ⟨.EXPIRE, ["k", "10"], some "7", none⟩ s (Clock.still 0))).1
      response.errorCode ≠ some .WRONG_ARITY ∧ response.errorCode ≠ some .UNKNOWN_COMMAND ∧
        response.requestId = some "7" ∧ ∃ text, serializeResponse response = .ok text := by
  have parsed : parseCommand " expire  k 10 \r\n" (some "7") none =
      .ok ⟨.EXPIRE, ["k", "10"], some "7", none⟩ := by decide +kernel
  exact ⟨parsed, (accepted_line_answered 1 1 one_pos Nat.one_pos [] parsed _).mpr not_false⟩

/-- The deadline was set when the clock read `1`, and it reads `0` now. -/
theorem far_ttl_unwritten :
    ¬ ∀ (tick : ℚ) (count : Nat) (tick_pos : 0 < tick) (count_pos : 0 < count) (calls : List StoreCall)
      (rawCommand : String) (requestId clientId : Option String) (request : CommandRequest) (clock : Clock ℚ),
      parseCommand rawCommand requestId clientId = .ok request →
      let s := machine.after (start tick count tick_pos count_pos) calls
      let response := (Id.run (executeCommand request s clock)).1
      response.errorCode ≠ some .WRONG_ARITY ∧ response.errorCode ≠ some .UNKNOWN_COMMAND ∧
        response.requestId = request.requestId ∧ ∃ text, serializeResponse response = .ok text := by
  intro claim
  let calls : List StoreCall :=
    [⟨.set "k" "v", Clock.still 1⟩, ⟨.expire "k" (10 ^ maxStrDigits - 1), Clock.still 1⟩]
  have answer : (Id.run (executeCommand { command := .TTL, args := ["k"] }
      (machine.after (start 1 1 one_pos Nat.one_pos) calls) (Clock.still 0))).1 =
        { kind := .INTEGER, integer := some (10 ^ maxStrDigits) } := by decide +kernel
  obtain ⟨_, _, _, text, written⟩ := claim 1 1 one_pos Nat.one_pos calls "TTL k" none none
    { command := .TTL, args := ["k"] } (Clock.still 0) (by decide +kernel)
  rw [answer] at written
  have long : str? (10 ^ maxStrDigits) = none := str?_none (by decide +kernel)
  simp only [serializeResponse, long] at written
  cases written

end LiteStore
