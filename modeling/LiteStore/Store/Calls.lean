import LiteStore.Lib.Machine
import LiteStore.Store.Exact

/-!
# Runs of the store

A `StoreCall` is one public call with the readings its clock gives it, `perform`
executes it, and `machine` runs lists of calls. `Valid` holds in every state
reached. A replayed request is a pass and the call it makes (`replayCalls`), so
a run of calls and replayed requests is a run of calls (`run_eq_after`).
-/

namespace LiteStore
set_option autoImplicit false
open Py

/-- The public operations of `MemoryStore`, without the replay of a request. -/
inductive StoreOp where
  | set (key value : String)
  | get (key : String)
  | delete (key : String)
  | expire (key : String) (ttlSeconds : Int)
  | ttl (key : String)
  | keys (pattern : String)
  | snapshot
  | flush
  | processExpirations (now : Option ℚ)
deriving DecidableEq

/-- What an operation returns. -/
inductive StoreResult where
  | none
  | value (v : Option String)
  | bool (b : Bool)
  | int (n : Int)
  | names (l : List String)
  | content (d : Dict String String)
deriving DecidableEq

/-- An operation and the readings of its `time_source()` calls. -/
structure StoreCall where
  op : StoreOp
  clock : Clock ℚ

/-- The reading at which a call runs its first expiry pass; a given `now` is one. -/
def StoreCall.start (c : StoreCall) : ℚ :=
  match c.op with
  | .processExpirations now => now.getD (c.clock 0)
  | _ => c.clock 0

namespace MemoryStore

/-- Execute a call in exact time. -/
def perform (s : MemoryStore ℚ) (c : StoreCall) : StoreResult × MemoryStore ℚ :=
  match c.op with
  | .set key value => (.none, Id.run (s.set c.clock key value))
  | .get key => let r := Id.run (s.get c.clock key); (.value r.1, r.2)
  | .delete key => let r := Id.run (s.delete c.clock key); (.bool r.1, r.2)
  | .expire key ttlSeconds => let r := Id.run (s.expire c.clock key ttlSeconds); (.bool r.1, r.2)
  | .ttl key => let r := Id.run (s.ttl c.clock key); (.int r.1, r.2)
  | .keys pattern => let r := Id.run (s.keys c.clock pattern); (.names r.1, r.2)
  | .snapshot => let r := Id.run (s.snapshot c.clock); (.content r.1, r.2)
  | .flush => let r := Id.run (s.flush c.clock); (.int r.1, r.2)
  | .processExpirations now => let r := Id.run (s.processExpirations c.clock now); (.int r.1, r.2)

/-- The store as a machine on calls. -/
def machine : Machine (MemoryStore ℚ) StoreCall StoreResult := ⟨perform⟩

@[simp] theorem machine_step (s : MemoryStore ℚ) (c : StoreCall) : machine.step s c = s.perform c := rfl

/-- The readings a call takes, in order: one for its pass, and on a key that the pass
leaves one more for a deadline, a remaining time or the pass of a nested `delete`. -/
def taken (s : MemoryStore ℚ) (c : StoreCall) : List ℚ :=
  let passed := s.pass c.start
  match c.op with
  | .expire key _ => if passed.data.contains key then [c.start, c.clock 1] else [c.start]
  | .ttl key =>
    match if passed.data.contains key then passed.expiresAt.get? key else none with
    | none => [c.start]
    | some d =>
      if truncate (d - c.clock 1) < 0 then [c.start, c.clock 1, c.clock 2] else [c.start, c.clock 1]
  | _ => [c.start]

/-- The expiry passes a call makes: the store before each and its reading. -/
def passes (s : MemoryStore ℚ) (c : StoreCall) : List (MemoryStore ℚ × ℚ) :=
  let passed := s.pass c.start
  match c.op with
  | .expire key ttlSeconds =>
    if passed.data.contains key && decide (ttlSeconds ≤ 0) then
      [(s, c.start), (passed, c.clock 1)] else [(s, c.start)]
  | .ttl key =>
    match if passed.data.contains key then passed.expiresAt.get? key else none with
    | none => [(s, c.start)]
    | some d =>
      if truncate (d - c.clock 1) < 0 then [(s, c.start), (passed, c.clock 2)] else [(s, c.start)]
  | _ => [(s, c.start)]

/-! ## What a call does -/

/-- The cases of a call: its passes, the readings it takes and the store it leaves. -/
inductive Effect (s : MemoryStore ℚ) (c : StoreCall) : Prop
  | passed (nothing : ∀ key value, c.op ≠ .set key value)
      (passes : s.passes c = [(s, c.start)]) (first : c.start ∈ s.taken c)
      (left : (s.perform c).2 = s.pass c.start)
  | put (key value : String) (op : c.op = .set key value)
      (passes : s.passes c = [(s, c.start)]) (first : c.start ∈ s.taken c)
      (left : (s.perform c).2 = (s.pass c.start).put key value)
  | removed (key : String) (op : c.op = .delete key)
      (passes : s.passes c = [(s, c.start)]) (first : c.start ∈ s.taken c)
      (left : (s.perform c).2 = (s.pass c.start).removeIfHeld key)
  | expired (key : String) (ttlSeconds : Int) (op : c.op = .expire key ttlSeconds)
      (negative : ttlSeconds ≤ 0) (held : (s.pass c.start).data.contains key = true)
      (passes : s.passes c = [(s, c.start), (s.pass c.start, c.clock 1)])
      (taken : s.taken c = [c.start, c.clock 1])
      (left : (s.perform c).2 = ((s.pass c.start).pass (c.clock 1)).removeIfHeld key)
  | timed (key : String) (ttlSeconds : Int) (op : c.op = .expire key ttlSeconds)
      (positive : 0 < ttlSeconds) (held : (s.pass c.start).data.contains key = true)
      (passes : s.passes c = [(s, c.start)]) (taken : s.taken c = [c.start, c.clock 1])
      (left : (s.perform c).2 = (s.pass c.start).withDeadline key (c.clock 1 + ttlSeconds))
  | lapsed (key : String) (d : ℚ) (op : c.op = .ttl key)
      (deadline : (s.pass c.start).expiresAt.get? key = some d) (late : d + 1 ≤ c.clock 1)
      (passes : s.passes c = [(s, c.start), (s.pass c.start, c.clock 2)])
      (taken : s.taken c = [c.start, c.clock 1, c.clock 2])
      (left : (s.perform c).2 = ((s.pass c.start).pass (c.clock 2)).removeIfHeld key)
  | flushed (op : c.op = .flush) (passes : s.passes c = [(s, c.start)]) (first : c.start ∈ s.taken c)
      (left : (s.perform c).2 = fresh TimingWheel.default)

/-- **Every call is one of the cases.** -/
theorem perform_effect (s : MemoryStore ℚ) (c : StoreCall) : Effect s c := by
  obtain ⟨op, clock⟩ := c
  cases op with
  | set key value => exact .put key value rfl rfl (by simp [taken]) rfl
  | get key => exact .passed (by simp) rfl (by simp [taken]) rfl
  | delete key =>
    exact .removed key rfl rfl (by simp [taken]) (congrArg Prod.snd (s.delete_exact clock key))
  | keys pattern => exact .passed (by simp) rfl (by simp [taken]) rfl
  | snapshot => exact .passed (by simp) rfl (by simp [taken]) rfl
  | flush => exact .flushed rfl rfl (by simp [taken]) rfl
  | processExpirations now => exact .passed (by simp) rfl (by simp [taken]) rfl
  | expire key n =>
    have run : (s.perform ⟨.expire key n, clock⟩).2 = (Id.run (s.expire clock key n)).2 := rfl
    rw [expire_exact] at run
    cases held : (s.pass (clock 0)).data.contains key with
    | false =>
      exact .passed (by simp) (by simp [passes, StoreCall.start, held])
        (by simp [taken, StoreCall.start, held]) (by simp [run, StoreCall.start, held])
    | true =>
      rw [if_pos held] at run
      by_cases negative : n ≤ 0
      · rw [if_pos negative] at run
        exact .expired key n rfl negative held (by simp [passes, StoreCall.start, held, negative])
          (by simp [taken, StoreCall.start, held]) run
      · rw [if_neg negative] at run
        exact .timed key n rfl (by omega) held (by simp [passes, StoreCall.start, negative])
          (by simp [taken, StoreCall.start, held]) run
  | ttl key =>
    have run : (s.perform ⟨.ttl key, clock⟩).2 = (Id.run (s.ttl clock key)).2 := rfl
    rw [ttl_exact] at run
    cases held : (s.pass (clock 0)).data.contains key with
    | false =>
      exact .passed (by simp) (by simp [passes, StoreCall.start, held])
        (by simp [taken, StoreCall.start, held]) (by simp [run, StoreCall.start, held])
    | true =>
      rw [if_pos held] at run
      cases deadline : (s.pass (clock 0)).expiresAt.get? key with
      | none =>
        exact .passed (by simp) (by simp [passes, StoreCall.start, held, deadline])
          (by simp [taken, StoreCall.start, held, deadline])
          (by simp [run, StoreCall.start, deadline])
      | some d =>
        simp only [deadline] at run
        by_cases late : truncate (d - clock 1) < 0
        · rw [if_pos late] at run
          have past := truncate_neg_iff.mp late
          exact .lapsed key d rfl deadline (by linarith)
            (by simp [passes, StoreCall.start, held, deadline, late])
            (by simp [taken, StoreCall.start, held, deadline, late]) run
        · rw [if_neg late] at run
          exact .passed (by simp) (by simp [passes, StoreCall.start, held, deadline, late])
            (by simp [taken, StoreCall.start, held, deadline, late]) run

/-! ## Every run -/

/-- A call keeps the invariant. -/
theorem perform_valid {s : MemoryStore ℚ} (h : s.Valid) (c : StoreCall) : (s.perform c).2.Valid := by
  have passed := pass_valid h c.start
  rcases perform_effect s c with ⟨_, _, _, left⟩ | ⟨key, value, _, _, _, left⟩ | ⟨key, _, _, _, left⟩ |
    ⟨key, n, _, _, _, _, _, left⟩ | ⟨key, n, _, _, held, _, _, left⟩ |
    ⟨key, d, _, _, _, _, _, left⟩ | ⟨_, _, _, left⟩ <;> rw [left]
  · exact passed
  · exact put_valid passed key value
  · exact removeIfHeld_valid passed key
  · exact removeIfHeld_valid (pass_valid passed _) key
  · exact withDeadline_valid passed held _
  · exact removeIfHeld_valid (pass_valid passed _) key
  · exact fresh_valid (TimingWheel.fresh_valid _ _ _ _) rfl

theorem run_valid {s : MemoryStore ℚ} (h : s.Valid) (calls : List StoreCall) :
    (machine.after s calls).Valid :=
  machine.invariant h (fun _ c valid => perform_valid valid c) calls

/-- An empty store on an empty wheel of any tick and any number of buckets. -/
def start (tick : ℚ) (count : Nat) (tick_pos : 0 < tick) (count_pos : 0 < count) : MemoryStore ℚ :=
  fresh (TimingWheel.fresh tick count tick_pos count_pos)

theorem start_valid (tick : ℚ) (count : Nat) (tick_pos count_pos) :
    (start tick count tick_pos count_pos).Valid :=
  fresh_valid (TimingWheel.fresh_valid tick count tick_pos count_pos) rfl

theorem unit_tick : (0 : ℚ) < 1 := by decide +kernel

section Values

variable {s : MemoryStore ℚ} {k v : String}

theorem pass_data_sub (h : s.Valid) {t : ℚ} (found : (s.pass t).data.get? k = some v) :
    s.data.get? k = some v := ((pass_data h t k v).mp found).1

theorem put_data (s : MemoryStore ℚ) (key value k : String) :
    (s.put key value).data.get? k = if k = key then some value else s.data.get? k :=
  Dict.get?_set s.data key k value

theorem put_expiresAt (s : MemoryStore ℚ) (key value k : String) :
    (s.put key value).expiresAt.get? k = if k = key then none else s.expiresAt.get? k :=
  Dict.get?_erase s.expiresAt key k

theorem removeIfHeld_data (s : MemoryStore ℚ) (key k : String) :
    (s.removeIfHeld key).data.get? k = if k = key then none else s.data.get? k := by
  unfold removeIfHeld
  split
  · exact Dict.get?_erase s.data key k
  · rename_i absent
    split
    · rename_i same
      rw [same]
      exact Option.not_isSome_iff_eq_none.mp absent
    · rfl

theorem removeIfHeld_expiresAt (h : s.Valid) (key k : String) :
    (s.removeIfHeld key).expiresAt.get? k = if k = key then none else s.expiresAt.get? k := by
  unfold removeIfHeld
  split
  · exact Dict.get?_erase s.expiresAt key k
  · rename_i absent
    split
    · rename_i same
      subst same
      cases timed : s.expiresAt.get? k with
      | none => rfl
      | some d => exact absurd (Dict.contains_iff.mpr (h.held k d timed)) absent
    · rfl

theorem withDeadline_expiresAt (s : MemoryStore ℚ) (key : String) (d : ℚ) (k : String) :
    (s.withDeadline key d).expiresAt.get? k = if k = key then some d else s.expiresAt.get? k :=
  Dict.get?_set s.expiresAt key k d

/-- After a call that is not a `set` of a key, the key has a value only if each pass of the
call left it that value. -/
theorem passes_data_sub (h : s.Valid) {c : StoreCall} (unset : ∀ value, c.op ≠ .set k value)
    {p : MemoryStore ℚ × ℚ} (made : p ∈ s.passes c)
    (found : (s.perform c).2.data.get? k = some v) : (p.1.pass p.2).data.get? k = some v := by
  have passed := pass_valid h c.start
  rcases perform_effect s c with ⟨_, passes, _, left⟩ | ⟨key, value, op, passes, _, left⟩ |
    ⟨key, _, passes, _, left⟩ | ⟨key, n, _, _, _, passes, _, left⟩ |
    ⟨key, n, _, _, _, passes, _, left⟩ | ⟨key, d, _, _, _, passes, _, left⟩ |
    ⟨_, passes, _, left⟩ <;> rw [left] at found <;> rw [passes] at made
  · rw [List.mem_singleton.mp made]
    exact found
  · have other : k ≠ key := by rintro rfl; exact unset value op
    rw [put_data, if_neg other] at found
    rw [List.mem_singleton.mp made]
    exact found
  · rw [removeIfHeld_data] at found
    rw [List.mem_singleton.mp made]
    split at found
    · cases found
    · exact found
  · rw [removeIfHeld_data] at found
    split at found
    · cases found
    · rcases List.mem_pair.mp made with rfl | rfl
      · exact pass_data_sub passed found
      · exact found
  · rw [List.mem_singleton.mp made]
    exact found
  · rw [removeIfHeld_data] at found
    split at found
    · cases found
    · rcases List.mem_pair.mp made with rfl | rfl
      · exact pass_data_sub passed found
      · exact found
  · cases found

/-- Every call runs its first pass on the store it is given. -/
theorem first_pass (s : MemoryStore ℚ) (c : StoreCall) : (s, c.start) ∈ s.passes c := by
  rcases perform_effect s c with ⟨_, passes, _, _⟩ | ⟨_, _, _, passes, _, _⟩ | ⟨_, _, passes, _, _⟩ |
    ⟨_, _, _, _, _, passes, _, _⟩ | ⟨_, _, _, _, _, passes, _, _⟩ |
    ⟨_, _, _, _, _, passes, _, _⟩ | ⟨_, passes, _, _⟩ <;> simp [passes]

/-- A call that is not a `set` of a key changes its value at most by removing the key. -/
theorem perform_data_sub (h : s.Valid) {c : StoreCall} (unset : ∀ value, c.op ≠ .set k value)
    (found : (s.perform c).2.data.get? k = some v) : s.data.get? k = some v := by
  have left := passes_data_sub h unset (first_pass s c) found
  exact pass_data_sub h left

/-- A key that is not held stays away until it is set. -/
theorem absent_until_set (h : s.Valid) (absent : s.data.get? k = none) {calls : List StoreCall}
    (unset : ∀ c ∈ calls, ∀ value, c.op ≠ .set k value) :
    (machine.after s calls).data.get? k = none := by
  refine (machine.invariant_along (I := fun s => s.Valid ∧ s.data.get? k = none) ⟨h, absent⟩
    (Machine.along_of_forall s unset) ?_).2
  rintro s c ⟨valid, absent⟩ unset
  refine ⟨perform_valid valid c, Option.eq_none_iff_forall_ne_some.mpr fun v found => ?_⟩
  rw [perform_data_sub valid unset found] at absent
  cases absent

end Values

/-! ## Replayed requests -/

/-- The calls that replaying a request makes: a pass, and the operation it names. -/
def replayCalls (request : CommandRequest) (clock : Clock ℚ) : List StoreCall :=
  ⟨.processExpirations none, clock⟩ ::
    match request.command, request.args with
    | .SET, [key, value] => [⟨.set key value, clock.drop 1⟩]
    | .DEL, [key] => [⟨.delete key, clock.drop 1⟩]
    | .EXPIRE, [key, secondsRaw] =>
      match int? secondsRaw with
      | none => []
      | some seconds => [⟨.expire key seconds, clock.drop 1⟩]
    | .FLUSHALL, [] => [⟨.flush, clock.drop 1⟩]
    | _, _ => []

theorem applyReplayRequest_exact (s : MemoryStore ℚ) (clock : Clock ℚ) (request : CommandRequest) :
    Id.run (s.applyReplayRequest clock request) = machine.after s (replayCalls request clock) := by
  obtain ⟨command, args, _, _⟩ := request
  rcases args with _ | ⟨key, _ | ⟨value, _ | ⟨more, rest⟩⟩⟩ <;> cases command
  case cons.cons.nil.EXPIRE =>
    simp only [applyReplayRequest, replayCalls]
    cases int? value <;> rfl
  all_goals rfl

/-- A step of a store's history: a call, or a request replayed into it. -/
inductive StoreStep where
  | call (c : StoreCall)
  | replay (request : CommandRequest) (clock : Clock ℚ)

/-- The calls of a step. -/
def StoreStep.calls : StoreStep → List StoreCall
  | .call c => [c]
  | .replay request clock => replayCalls request clock

/-- The store after a step. -/
def advance (s : MemoryStore ℚ) : StoreStep → MemoryStore ℚ
  | .call c => (s.perform c).2
  | .replay request clock => Id.run (s.applyReplayRequest clock request)

/-- The store after a history is the store after its calls. -/
theorem run_eq_after (s : MemoryStore ℚ) (steps : List StoreStep) :
    steps.foldl advance s = machine.after s (steps.flatMap StoreStep.calls) := by
  induction steps generalizing s with
  | nil => rfl
  | cons step steps ih =>
    rw [List.foldl_cons, ih, List.flatMap_cons, Machine.after_append]
    congr 1
    cases step with
    | call c => rfl
    | replay request clock => exact applyReplayRequest_exact s clock request

end MemoryStore
end LiteStore
