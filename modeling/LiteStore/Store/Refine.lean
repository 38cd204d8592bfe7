import LiteStore.Lib.Simulation
import LiteStore.Store.InStep
import LiteStore.Store.Turn

/-!
# The store refines a map with deadlines

What a store is for, without its wheel: a map whose calls first let keys expire, with some slack, and then
read or change one key (`laxStore`). At readings that never decrease, every run of the store is a run of this
specification with the same answers, and the slack is one turn of the wheel (`refines_laxStore`).
Timestamps are exact rationals.
-/

namespace LiteStore.MemoryStore
set_option autoImplicit false
open Py TimingWheel

/-! ## The specification -/

/-- The list has the keys with a property, each once. -/
def Lists (l : List String) (p : String → Prop) : Prop := l.Nodup ∧ ∀ k, k ∈ l ↔ p k

/-- What a call answers and leaves, once the keys that its first pass drops are gone. -/
def Acts (slack : ℚ) (c : StoreCall) (before m : ExpiringMap String String ℚ) (result : StoreResult)
    (m' : ExpiringMap String String ℚ) : Prop :=
  match c.op with
  | .set key value => result = .none ∧ m' = m.put key value
  | .get key => result = .value (m.value key) ∧ m' = m
  | .delete key => result = .bool (m.get? key).isSome ∧ m' = m.erase key
  | .expire key n =>
    if (m.get? key).isSome then
      result = .bool true ∧
        if n ≤ 0 then ∃ passed, m.Expires slack (c.clock 1) passed ∧ m' = passed.erase key
        else m' = m.setDeadline key (c.clock 1 + n)
    else result = .bool false ∧ m' = m
  | .ttl key =>
    match m.get? key with
    | none => result = .int (-2) ∧ m' = m
    | some (_, none) => result = .int (-1) ∧ m' = m
    | some (_, some d) =>
      if d + 1 ≤ c.clock 1 then
        result = .int (-2) ∧ ∃ passed, m.Expires slack (c.clock 2) passed ∧ m' = passed.erase key
      else result = .int (truncate (d - c.clock 1)) ∧ m' = m
  | .keys pattern =>
    m' = m ∧ ∃ l, result = .names l ∧ Lists l fun k => (m.get? k).isSome ∧ fnmatch k pattern
  | .snapshot => m' = m ∧ ∃ d, result = .content d ∧ ∀ k, d.get? k = m.value k
  | .flush => m' = .empty ∧ ∃ l : List String, result = .int l.length ∧ Lists l fun k => (m.get? k).isSome
  | .processExpirations _ =>
    m' = m ∧ ∃ l : List String, result = .int l.length ∧ Lists l fun k => (before.get? k).isSome ∧ m.get? k = none

/-- A store as its users know it. -/
def laxStore (slack : ℚ) : Spec (ExpiringMap String String ℚ) StoreCall StoreResult where
  allows m c result m' := ∃ passed, m.Expires slack c.start passed ∧ Acts slack c m passed result m'

/-! ## One call -/

variable {s : MemoryStore ℚ} {c : StoreCall} {slack : ℚ}

theorem start_taken (s : MemoryStore ℚ) (c : StoreCall) : c.start ∈ s.taken c := by
  unfold taken
  dsimp only
  split
  · split <;> simp
  · split
    · simp
    · split <;> simp
  · simp

theorem keys_list (s : MemoryStore ℚ) : Lists s.data.keys fun k => (s.expiring.get? k).isSome := by
  refine ⟨s.data.keys_nodup, fun k => ?_⟩
  dsimp only
  rw [expiring_isSome]
  exact Dict.mem_keys_isSome

theorem Lists.filter {l : List String} {p : String → Prop} (h : Lists l p) (q : String → Bool) :
    Lists (l.filter q) fun k => p k ∧ q k := by
  refine ⟨h.1.filter q, fun k => ?_⟩
  rw [List.mem_filter, h.2]

theorem removedKeys_list (s s' : MemoryStore ℚ) :
    Lists (removedKeys s s') fun k => (s.expiring.get? k).isSome ∧ s'.expiring.get? k = none := by
  obtain ⟨distinct, listed⟩ := s.keys_list.filter fun k => !s'.data.contains k
  refine ⟨distinct, fun k => ?_⟩
  rw [removedKeys, listed]
  dsimp only
  rw [← expiring_isSome, Bool.not_eq_true', Option.isSome_eq_false_iff, Option.isNone_iff_eq_none]

theorem pass_revolution (h : s.Valid) (t : ℚ) : (s.pass t).revolution = s.revolution := by
  obtain ⟨seconds, count, _⟩ := pass_frame h t
  rw [revolution, seconds, count, revolution]

/-- The wheel turns as before, unless a flush has put in a default one. -/
theorem perform_revolution (h : s.Valid) (c : StoreCall) :
    (s.perform c).2.revolution = s.revolution ∨ (s.perform c).2.revolution = 512 * (1 / 10) := by
  have cancelled (s : MemoryStore ℚ) (key : String) :
      ((s.timingWheel.cancel key).bucketCount : ℚ) * (s.timingWheel.cancel key).tickSeconds = s.revolution := by
    obtain ⟨count, seconds, _⟩ := cancel_fields s.timingWheel key
    rw [count, seconds, revolution]
  have removed (s : MemoryStore ℚ) (key : String) : (s.removeIfHeld key).revolution = s.revolution := by
    unfold removeIfHeld
    split
    · exact cancelled s key
    · rfl
  have passed := pass_valid h c.start
  rcases perform_effect s c with ⟨_, _, _, left⟩ | ⟨key, value, _, _, _, left⟩ | ⟨key, _, _, _, left⟩ |
    ⟨key, n, _, _, _, _, _, left⟩ | ⟨key, n, _, _, held, _, _, left⟩ |
    ⟨key, d, _, _, _, _, _, left⟩ | ⟨_, _, _, left⟩ <;> rw [left]
  · exact .inl (pass_revolution h _)
  · exact .inl ((cancelled _ key).trans (pass_revolution h _))
  · exact .inl ((removed _ key).trans (pass_revolution h _))
  · exact .inl ((removed _ key).trans ((pass_revolution passed _).trans (pass_revolution h _)))
  · obtain ⟨_, seconds, count, _⟩ := schedule_spec passed.wheel key (c.clock 1 + n)
    refine .inl (Eq.trans ?_ (pass_revolution h c.start))
    show ((Id.run ((s.pass c.start).timingWheel.schedule key (c.clock 1 + n))).bucketCount : ℚ) *
      (Id.run ((s.pass c.start).timingWheel.schedule key (c.clock 1 + n))).tickSeconds = _
    rw [seconds, count, revolution]
  · exact .inl ((removed _ key).trans ((pass_revolution passed _).trans (pass_revolution h _)))
  · exact .inr rfl

/-- **One call** of the store is one of the specification. -/
theorem step_allowed (now : ∀ r ∈ s.taken c, InTurn s r) (sorted : (s.taken c).Pairwise (· ≤ ·))
    (turn : s.revolution ≤ slack) :
    (laxStore slack).allows s.expiring c (s.perform c).1 (s.perform c).2.expiring := by
  have h := now _ (start_taken s c)
  have turn' : (s.pass c.start).revolution ≤ slack := (pass_revolution h.toValid _).trans_le turn
  refine ⟨(s.pass c.start).expiring, h.pass_expires turn, ?_⟩
  -- A second pass, at a reading that is not before the first.
  have second {r : ℚ} (le : c.start ≤ r) :
      (s.pass c.start).expiring.Expires slack r ((s.pass c.start).pass r).expiring :=
    (h.pass.mono le).pass_expires turn'
  obtain ⟨op, clock⟩ := c
  cases op with
  | set key value => exact ⟨rfl, put_expiring _ key value⟩
  | get key => exact ⟨congrArg StoreResult.value (expiring_value _ key).symm, rfl⟩
  | delete key =>
    have run : s.perform ⟨.delete key, clock⟩ =
      (.bool (Id.run (s.delete clock key)).1, (Id.run (s.delete clock key)).2) := rfl
    rw [run, delete_exact]
    refine ⟨?_, removeIfHeld_expiring _ key⟩
    rw [expiring_isSome]
    rfl
  | expire key n =>
    have run : s.perform ⟨.expire key n, clock⟩ =
      (.bool (Id.run (s.expire clock key n)).1, (Id.run (s.expire clock key n)).2) := rfl
    rw [run, expire_exact]
    simp only [Acts, expiring_isSome]
    cases held : (s.pass (clock 0)).data.contains key with
    | false =>
      have held : (s.pass (StoreCall.start ⟨.expire key n, clock⟩)).data.contains key = false := held
      simp only [held, Bool.false_eq_true, if_false]
      exact ⟨trivial, rfl⟩
    | true =>
      have held : (s.pass (StoreCall.start ⟨.expire key n, clock⟩)).data.contains key = true := held
      have two : s.taken ⟨.expire key n, clock⟩ = [clock 0, clock 1] := by
        simp only [taken, held, if_true]
        rfl
      rw [two] at sorted
      have le : clock 0 ≤ clock 1 := by simpa using sorted
      simp only [held, if_true]
      by_cases negative : n ≤ 0
      · simp only [negative, if_true]
        exact ⟨trivial, _, second le, removeIfHeld_expiring _ key⟩
      · simp only [negative, if_false]
        exact ⟨trivial, withDeadline_expiring _ key _⟩
  | ttl key =>
    have run : s.perform ⟨.ttl key, clock⟩ =
      (.int (Id.run (s.ttl clock key)).1, (Id.run (s.ttl clock key)).2) := rfl
    rw [run, ttl_exact]
    have start : StoreCall.start ⟨.ttl key, clock⟩ = clock 0 := rfl
    simp only [Acts, start]
    have entry : (s.pass (clock 0)).expiring.get? key = ((s.pass (clock 0)).data.get? key).map fun v =>
      (v, (s.pass (clock 0)).expiresAt.get? key) := rfl
    rw [entry, Dict.contains]
    cases value : (s.pass (clock 0)).data.get? key with
    | none => exact ⟨rfl, rfl⟩
    | some v =>
      simp only [Option.isSome_some, if_true, Option.map_some]
      cases deadline : (s.pass (clock 0)).expiresAt.get? key with
      | none => exact ⟨rfl, rfl⟩
      | some d =>
        have late : truncate (d - clock 1) < 0 ↔ d + 1 ≤ clock 1 := by
          rw [truncate_neg_iff]
          constructor <;> intro _ <;> linarith
        simp only [late]
        by_cases past : d + 1 ≤ clock 1
        · have le : clock 0 ≤ clock 2 := by
            have three : s.taken ⟨.ttl key, clock⟩ = [clock 0, clock 1, clock 2] := by
              simp [taken, start, Dict.contains, value, deadline, late, past]
            rw [three] at sorted
            simp only [List.pairwise_cons, List.mem_cons, forall_eq_or_imp] at sorted
            exact sorted.1.2.1
          simp only [past, if_true]
          exact ⟨trivial, _, second le, removeIfHeld_expiring _ key⟩
        · simp only [past, if_false]
          exact ⟨trivial, trivial⟩
  | keys pattern => exact ⟨rfl, _, rfl, (keys_list _).filter fun k => fnmatch k pattern⟩
  | snapshot => exact ⟨rfl, _, rfl, fun k => (expiring_value _ k).symm⟩
  | flush =>
    refine ⟨rfl, (s.pass (clock 0)).data.keys, ?_, keys_list _⟩
    rw [Dict.length_keys]
    rfl
  | processExpirations t =>
    refine ⟨rfl, removedKeys s (s.pass (t.getD (clock 0))), ?_, removedKeys_list _ _⟩
    rw [← passCount_eq h.toValid]
    rfl

/-! ## Every run -/

/-- The map follows the store, at readings that do not decrease from here on. -/
structure Follows (slack : ℚ) (calls : List StoreCall) (s : MemoryStore ℚ) (m : ExpiringMap String String ℚ) :
    Prop where
  same : m = s.expiring
  turn : s.revolution ≤ slack
  now : ∀ r ∈ machine.collect taken s calls, InTurn s r
  sorted : (machine.collect taken s calls).Pairwise (· ≤ ·)

theorem Follows.step {calls : List StoreCall} {m : ExpiringMap String String ℚ} (default : 512 * (1 / 10) ≤ slack)
    (h : Follows slack (c :: calls) s m) :
    (laxStore slack).allows m c (s.perform c).1 (s.perform c).2.expiring ∧
      Follows slack calls (s.perform c).2 (s.perform c).2.expiring := by
  obtain ⟨rfl, turn, now, sorted⟩ := h
  obtain ⟨sortedHere, sortedRest, order⟩ := List.pairwise_append.mp sorted
  have nowHere : ∀ r ∈ s.taken c, InTurn s r := fun r m => now r (List.mem_append_left _ m)
  refine ⟨step_allowed nowHere sortedHere turn, rfl, ?_, fun r m => ?_, sortedRest⟩
  · rcases perform_revolution (nowHere _ (start_taken s c)).toValid c with same | flushed
    · exact same.trans_le turn
    · exact flushed.trans_le default
  · exact InTurn.step nowHere sortedHere fun r' m' => order r' m' r m

/-- **The store refines a map with deadlines.** On any wheel, every run of calls whose readings never decrease,
flushes included, is a run of the specification with the same answers, where expiry has a turn's slack: that of
the wheel, or of the default one that a flush puts in its place. -/
theorem refines_laxStore (tick : ℚ) (count : Nat) (tick_pos : 0 < tick) (count_pos : 0 < count)
    (calls : List StoreCall)
    (sorted : (machine.collect taken (start tick count tick_pos count_pos) calls).Pairwise (· ≤ ·)) :
    let s := start tick count tick_pos count_pos
    (laxStore (max (count * tick) (512 * (1 / 10)))).Runs .empty calls (machine.outputs s calls)
      (machine.after s calls).expiring := by
  intro s
  have begins : Follows (max (count * tick) (512 * (1 / 10))) calls s .empty :=
    ⟨rfl, le_max_left _ _, fun r _ => fresh_inTurn tick count tick_pos count_pos r, sorted⟩
  obtain ⟨m, run, last⟩ := machine.refines (S := laxStore _) (R := Follows (max (count * tick) (512 * (1 / 10))))
    (fun _ _ _ _ h => ⟨_, h.step (le_max_right _ _)⟩) begins
  exact last.same ▸ run

/-- A key outlives its deadline by a turn of a small wheel, and then is gone. -/
def lingering : List StoreCall :=
  [⟨.set "k" "v", Clock.still 0⟩, ⟨.expire "k" 3, fun i => if i = 0 then 0 else 1 / 4⟩, ⟨.get "k", Clock.still 3⟩,
   ⟨.ttl "k", Clock.still (7 / 2)⟩, ⟨.flush, Clock.still 60⟩]

theorem lingering_refines :
    (laxStore (max (2 * 1) (512 * (1 / 10)))).Runs .empty lingering
      (machine.outputs (start 1 2 unit_tick Nat.two_pos) lingering)
      (machine.after (start 1 2 unit_tick Nat.two_pos) lingering).expiring :=
  refines_laxStore 1 2 unit_tick Nat.two_pos lingering (by decide +kernel)

end LiteStore.MemoryStore
