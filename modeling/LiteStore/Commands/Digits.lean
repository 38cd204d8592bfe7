import LiteStore.Commands.Exact
import Mathlib.Data.Nat.Digits.Defs

/-!
# Integers that can be written

Python neither reads nor writes a decimal integer of more than 4300 digits. `EXPIRE` takes no more
seconds than that, so while the clocks do not go back no deadline is further ahead (`Near`), and no
`TTL` has a longer answer.
-/

namespace LiteStore
set_option autoImplicit false
open Py MemoryStore

/-! ## Reading -/

theorem asciiDigit?_lt {c : Char} {d : Nat} (read : asciiDigit? c = some d) : d < 10 := by
  unfold asciiDigit? at read
  split at read
  · rename_i digit
    cases read
    have last := (Char.isDigit_iff_toNat.mp digit).2
    rw [show '9'.toNat = 57 from rfl] at last
    omega
  · cases read

theorem moreDigits_lt {text : List Char} {digits : List Nat} (read : moreDigits text = some digits) :
    ∀ d ∈ digits, d < 10 := by
  have cons {c : Char} {more : Option (List Nat)} {digits : List Nat}
      (later : ∀ digits, more = some digits → ∀ d ∈ digits, d < 10)
      (read : (do return (← asciiDigit? c) :: (← more) : Option (List Nat)) = some digits) :
      ∀ d ∈ digits, d < 10 := by
    obtain ⟨d, first, read⟩ := Option.bind_eq_some_iff.mp read
    obtain ⟨rest, after, read⟩ := Option.bind_eq_some_iff.mp read
    cases read
    exact List.forall_mem_cons.mpr ⟨asciiDigit?_lt first, later rest after⟩
  fun_induction moreDigits text generalizing digits with
  | case1 =>
    cases read
    rintro d ⟨⟩
  | case2 c rest ih => exact cons (fun digits read => ih read) read
  | case3 c rest _ ih => exact cons (fun digits read => ih read) read

theorem digits?_lt {text : List Char} {digits : List Nat} (read : digits? text = some digits) :
    ∀ d ∈ digits, d < 10 := by
  cases text with
  | nil => cases read
  | cons c rest =>
    obtain ⟨d, first, read⟩ := Option.bind_eq_some_iff.mp read
    obtain ⟨more, after, read⟩ := Option.bind_eq_some_iff.mp read
    cases read
    exact List.forall_mem_cons.mpr ⟨asciiDigit?_lt first, moreDigits_lt after⟩

theorem foldl_digits_lt {digits : List Nat} (each : ∀ d ∈ digits, d < 10) :
    digits.foldl (fun n d => 10 * n + d) 0 < 10 ^ digits.length := by
  have number : digits.foldl (fun n d => 10 * n + d) 0 = Nat.ofDigits 10 digits.reverse := by
    rw [Nat.ofDigits_eq_foldr, List.foldr_reverse]
    simp [Nat.add_comm]
  rw [number, ← List.length_reverse]
  exact Nat.ofDigits_lt_base_pow_length (by decide) fun d m => each d (List.mem_reverse.mp m)

theorem natural?_lt {text : List Char} {n : Nat} (read : natural? text = some n) :
    n < 10 ^ maxStrDigits := by
  obtain ⟨digits, first, read⟩ := Option.bind_eq_some_iff.mp read
  split at read
  · rename_i few
    cases read
    calc digits.foldl (fun n d => 10 * n + d) 0
        < 10 ^ digits.length := foldl_digits_lt (digits?_lt first)
      _ ≤ 10 ^ maxStrDigits := Nat.pow_le_pow_right (by decide) few
  · cases read

/-- What `int` reads has at most as many digits as its limit says. -/
theorem int?_lt {text : String} {n : Int} (read : int? text = some n) : n.natAbs < 10 ^ maxStrDigits := by
  have signed {text : List Char} {k : Int} (read : (do return ((← natural? text : Nat) : Int)) = some k) :
      k.natAbs < 10 ^ maxStrDigits := by
    obtain ⟨n, digits, read⟩ := Option.bind_eq_some_iff.mp read
    cases read
    exact natural?_lt digits
  unfold int? at read
  dsimp only at read
  split at read
  · obtain ⟨k, digits, rfl⟩ := Option.map_eq_some_iff.mp read
    rw [Int.natAbs_neg]
    exact signed digits
  all_goals
    obtain ⟨k, digits, rfl⟩ := Option.map_eq_some_iff.mp read
    exact signed digits

/-- A run of nines is read as the largest number of so many digits. -/
theorem moreDigits_nines (n : Nat) : moreDigits (List.replicate n '9') = some (List.replicate n 9) := by
  induction n with
  | zero => rfl
  | succ n ih =>
    have step : moreDigits (List.replicate (n + 1) '9') =
        (do return (← asciiDigit? '9') :: (← moreDigits (List.replicate n '9'))) := by
      cases n <;> rfl
    rw [step, ih]
    rfl

theorem foldl_nines (n k : Nat) : (List.replicate n 9).foldl (fun n d => 10 * n + d) k + 1 = (k + 1) * 10 ^ n := by
  induction n generalizing k with
  | zero => simp
  | succ n ih =>
    rw [List.replicate_succ, List.foldl_cons, ih, Nat.pow_succ]
    ring

theorem int?_nines {n : Nat} (positive : 0 < n) (few : n ≤ maxStrDigits) :
    int? (String.ofList (List.replicate n '9')) = some (10 ^ n - 1) := by
  obtain ⟨n, rfl⟩ := Nat.exists_eq_succ_of_ne_zero positive.ne'
  have digits : natural? (List.replicate (n + 1) '9') = some (10 ^ (n + 1) - 1) := by
    have read : digits? (List.replicate (n + 1) '9') = some (List.replicate (n + 1) 9) := by
      rw [List.replicate_succ, digits?, moreDigits_nines]
      rfl
    have value := foldl_nines (n + 1) 0
    rw [natural?, read, Option.bind_eq_bind, Option.bind_some, List.length_replicate, if_pos few]
    congr 1
    omega
  have ascii : (List.replicate (n + 1) '9').all (fun c => decide (c.toNat < 0x80)) = true :=
    List.all_eq_true.mpr fun c m => by rw [List.eq_of_mem_replicate m]; decide
  have trimmed : (List.replicate (n + 1) '9').dropWhile isAsciiSpace = List.replicate (n + 1) '9' := by
    rw [List.replicate_succ, List.dropWhile_cons_of_neg (by decide)]
  rw [int?, String.toList_ofList]
  simp only [ascii, if_true, trimmed, List.reverse_replicate]
  rw [List.replicate_succ] at digits ⊢
  show Option.map (fun k => k) (do return ((← natural? ('9' :: List.replicate n '9') : Nat) : Int)) = _
  rw [digits]
  show some ((10 ^ (n + 1) - 1 : Nat) : Int) = some (10 ^ (n + 1) - 1)
  rw [Int.natCast_sub (Nat.one_le_pow _ _ (by decide)), Int.natCast_pow]
  rfl

/-! ## Deadlines and keys -/

/-- A call sets one of `names` only, and an `expire` asks for less than `m` seconds, not after `u`. -/
def StoreCall.Bounded (u m : ℚ) (names : List String) (c : StoreCall) : Prop :=
  match c.op with
  | .set key _ => key ∈ names
  | .expire _ n => c.clock 1 ≤ u ∧ (n : ℚ) < m
  | _ => True

namespace MemoryStore

/-- Every deadline comes less than `m` seconds after `u`, and every key is one of `names`. -/
structure Near (u m : ℚ) (names : List String) (s : MemoryStore ℚ) : Prop where
  deadline : ∀ k d, s.expiresAt.get? k = some d → d < u + m
  key : ∀ k v, s.data.get? k = some v → k ∈ names

variable {u m : ℚ} {names : List String} {s : MemoryStore ℚ}

theorem Near.mono (near : Near u m names s) {u' : ℚ} {names' : List String} (later : u ≤ u')
    (more : names ⊆ names') : Near u' m names' s where
  deadline k d timed := by
    have before := near.deadline k d timed
    linarith
  key k v found := more (near.key k v found)

theorem Near.pass (near : Near u m names s) (h : s.Valid) (t : ℚ) : Near u m names (s.pass t) where
  deadline k d timed := near.deadline k d ((pass_expiresAt h t k d).mp timed).1
  key k v found := near.key k v (pass_data_sub h found)

theorem Near.removeIfHeld (near : Near u m names s) (h : s.Valid) (key : String) :
    Near u m names (s.removeIfHeld key) where
  deadline k d timed := by
    rw [removeIfHeld_expiresAt h] at timed
    split at timed
    · cases timed
    · exact near.deadline k d timed
  key k v found := by
    rw [removeIfHeld_data] at found
    split at found
    · cases found
    · exact near.key k v found

/-- **One call.** -/
theorem Near.perform (near : Near u m names s) (h : s.Valid) {c : StoreCall} (bounded : c.Bounded u m names) :
    Near u m names (s.perform c).2 := by
  have passed := near.pass h c.start
  have valid := pass_valid h c.start
  unfold StoreCall.Bounded at bounded
  rcases perform_effect s c with ⟨_, _, _, left⟩ | ⟨key, value, op, _, _, left⟩ | ⟨key, _, _, _, left⟩ |
    ⟨key, n, _, _, _, _, _, left⟩ | ⟨key, n, op, _, _, _, _, left⟩ |
    ⟨key, d, _, _, _, _, _, left⟩ | ⟨_, _, _, left⟩ <;> rw [left]
  · exact passed
  · rw [op] at bounded
    refine ⟨fun k d timed => ?_, fun k v found => ?_⟩
    · rw [put_expiresAt] at timed
      split at timed
      · cases timed
      · exact passed.deadline k d timed
    · rw [put_data] at found
      split at found
      · rename_i same
        exact same ▸ bounded
      · exact passed.key k v found
  · exact passed.removeIfHeld valid key
  · exact (passed.pass valid _).removeIfHeld (pass_valid valid _) key
  · rw [op] at bounded
    refine ⟨fun k d timed => ?_, passed.key⟩
    rw [withDeadline_expiresAt] at timed
    split at timed
    · cases timed
      linarith [bounded.1, bounded.2]
    · exact passed.deadline k d timed
  · exact (passed.pass valid _).removeIfHeld (pass_valid valid _) key
  · exact ⟨by rintro k d ⟨⟩, by rintro k v ⟨⟩⟩

/-- **A run of calls.** -/
theorem Near.after (near : Near u m names s) (h : s.Valid) {calls : List StoreCall}
    (bounded : ∀ c ∈ calls, c.Bounded u m names) : Near u m names (machine.after s calls) := by
  induction calls generalizing s with
  | nil => exact near
  | cons c calls ih =>
    have here := near.perform h (bounded c List.mem_cons_self)
    exact ih here (perform_valid h c) fun c member => bounded c (List.mem_cons_of_mem _ member)

end MemoryStore

/-- The calls of a command ask for no more seconds than `int` reads. -/
theorem commandCalls_bounded {request : CommandRequest} {clock : Clock ℚ} {u : ℚ} (now : clock 1 ≤ u)
    {names : List String} (named : ∀ key ∈ request.args.head?, key ∈ names) :
    ∀ c ∈ commandCalls request clock, c.Bounded u (10 ^ maxStrDigits : Nat) names := by
  obtain ⟨command, args, _, _⟩ := request
  cases command
  case MGET =>
    intro c m
    obtain ⟨key, n, rfl⟩ := mem_getCalls m
    trivial
  case SET =>
    rcases args with _ | ⟨key, _ | ⟨value, _ | ⟨more, rest⟩⟩⟩
    case cons.cons.nil => exact List.forall_mem_singleton.mpr (named key rfl)
    all_goals exact List.forall_mem_nil _
  case EXPIRE =>
    rcases args with _ | ⟨key, _ | ⟨secondsRaw, _ | ⟨more, rest⟩⟩⟩
    case cons.cons.nil =>
      simp only [commandCalls]
      cases read : parseTtlSeconds secondsRaw with
      | none => exact List.forall_mem_nil _
      | some seconds =>
        have short : seconds.natAbs < 10 ^ maxStrDigits := int?_lt read
        have few : seconds < (10 ^ maxStrDigits : Nat) := by omega
        exact List.forall_mem_singleton.mpr ⟨now, by exact_mod_cast few⟩
    all_goals exact List.forall_mem_nil _
  all_goals
    rcases args with _ | ⟨key, _ | ⟨more, rest⟩⟩ <;> first
      | exact List.forall_mem_nil _
      | exact List.forall_mem_singleton.mpr trivial

/-- **A command** leaves the deadlines near, and adds its key at most. -/
theorem MemoryStore.Near.executeCommand {s : MemoryStore ℚ} {u : ℚ} {names : List String}
    (near : Near u (10 ^ maxStrDigits : Nat) names s) (h : s.Valid) {request : CommandRequest} {clock : Clock ℚ}
    (now : clock 1 ≤ u) (named : ∀ key ∈ request.args.head?, key ∈ names) :
    Near u (10 ^ maxStrDigits : Nat) names (Id.run (LiteStore.executeCommand request s clock)).2 := by
  rw [executeCommand_state]
  exact near.after h (commandCalls_bounded now named)

end LiteStore
