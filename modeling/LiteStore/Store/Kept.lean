import LiteStore.Store.Calls

/-!
# No live key is lost or changed early

Between a `set` of a key and the next change of it, other calls drain the wheel
and may delete other keys. `Holds` says what the store keeps of the key: its
value, and its deadline if an `expire` gave it one. A quiet call keeps `Holds` as
long as every reading it takes is before the deadline, and an `expire` that
succeeds moves it to the new deadline. Readings may go backward.
-/

namespace LiteStore.MemoryStore
set_option autoImplicit false
open Py

/-- The call leaves the key to itself: it is no set or delete of the key, no expiry of it
without time left, and no flush. -/
def Quiet (k : String) (c : StoreCall) : Prop :=
  (∀ value, c.op ≠ .set k value) ∧ c.op ≠ .delete k ∧ (∀ n ≤ 0, c.op ≠ .expire k n) ∧ c.op ≠ .flush

/-- The call is an `expire` of the key that succeeds. -/
def Expires (k : String) (s : MemoryStore ℚ) (c : StoreCall) : Prop :=
  (∃ n, c.op = .expire k n) ∧ (s.perform c).1 = .bool true

/-- The key has the value and the deadline, if any. -/
def Holds (k v : String) (deadline : Option ℚ) (s : MemoryStore ℚ) : Prop :=
  s.data.get? k = some v ∧ s.expiresAt.get? k = deadline

variable {s : MemoryStore ℚ} {k v : String} {deadline : Option ℚ}

/-- A pass before the deadline leaves the key as it is. -/
theorem Holds.pass (h : s.Valid) (holds : Holds k v deadline s) {t : ℚ}
    (before : ∀ d ∈ deadline, t < d) : Holds k v deadline (s.pass t) := by
  obtain ⟨found, timed⟩ := holds
  have stays : ¬ s.Due t k := by
    intro due
    obtain ⟨d, timed', past⟩ := due.deadline h
    exact absurd (before d (timed.symm.trans timed')) (not_lt.mpr past)
  refine ⟨(pass_data h t k v).mpr ⟨found, stays⟩, Option.ext fun d => ?_⟩
  rw [pass_expiresAt h, timed]
  exact ⟨And.left, fun same => ⟨same, stays⟩⟩

theorem Holds.put (holds : Holds k v deadline s) {key : String} (other : k ≠ key) (value : String) :
    Holds k v deadline (s.put key value) := by
  rw [Holds, put_data, put_expiresAt, if_neg other, if_neg other]
  exact holds

theorem Holds.removeIfHeld (h : s.Valid) (holds : Holds k v deadline s) {key : String}
    (other : k ≠ key) : Holds k v deadline (s.removeIfHeld key) := by
  rw [Holds, removeIfHeld_data, removeIfHeld_expiresAt h, if_neg other, if_neg other]
  exact holds

theorem Holds.withDeadline (holds : Holds k v deadline s) {key : String} (other : k ≠ key) (d : ℚ) :
    Holds k v deadline (s.withDeadline key d) := by
  rw [Holds, withDeadline_expiresAt, if_neg other]
  exact holds

/-- An `expire` succeeds exactly on a key that its first pass leaves. -/
theorem expires_iff {c : StoreCall} {n : Int} (op : c.op = .expire k n) :
    Expires k s c ↔ (s.pass c.start).data.contains k = true := by
  obtain ⟨op', clock⟩ := c
  have op : op' = .expire k n := op
  subst op
  have run : (s.perform ⟨.expire k n, clock⟩).1 = .bool (Id.run (s.expire clock k n)).1 := rfl
  rw [Expires, run, expire_exact]
  cases held : (s.pass (clock 0)).data.contains k with
  | false => simp [StoreCall.start, held]
  | true =>
    simp only [StoreCall.start, held, StoreOp.expire.injEq, true_and, exists_eq', iff_true, if_true]
    split <;> rfl

/-- **A quiet call** whose readings are before the deadline and that is no successful `expire`
of the key leaves the key as it is. -/
theorem Holds.step (h : s.Valid) (holds : Holds k v deadline s) {c : StoreCall} (quiet : Quiet k c)
    (unexpired : ¬ Expires k s c) (before : ∀ r ∈ s.taken c, ∀ d ∈ deadline, r < d) :
    Holds k v deadline (s.perform c).2 := by
  obtain ⟨unset, undeleted, _, unflushed⟩ := quiet
  have passed := pass_valid h c.start
  have first (start : c.start ∈ s.taken c) : Holds k v deadline (s.pass c.start) :=
    holds.pass h (before c.start start)
  rcases perform_effect s c with ⟨_, _, start, left⟩ | ⟨key, value, op, _, start, left⟩ |
    ⟨key, op, _, start, left⟩ | ⟨key, n, op, _, held, _, taken, left⟩ |
    ⟨key, n, op, _, held, _, taken, left⟩ | ⟨key, d, op, timed, late, _, taken, left⟩ | ⟨op, _, _, _⟩
  · rw [left]
    exact first start
  · have other : k ≠ key := by rintro rfl; exact unset value op
    rw [left]
    exact (first start).put other value
  · have other : k ≠ key := by rintro rfl; exact undeleted op
    rw [left]
    exact (first start).removeIfHeld passed other
  · have other : k ≠ key := by rintro rfl; exact unexpired ((expires_iff op).mpr held)
    rw [left]
    exact ((first (by simp [taken])).pass passed (before _ (by simp [taken]))).removeIfHeld
      (pass_valid passed _) other
  · have other : k ≠ key := by rintro rfl; exact unexpired ((expires_iff op).mpr held)
    rw [left]
    exact (first (by simp [taken])).withDeadline other _
  · -- A TTL that finds the deadline a second old reads the clock after the deadline.
    have other : k ≠ key := by
      rintro rfl
      have same := (first (by simp [taken])).2.symm.trans timed
      have early := before (c.clock 1) (by simp [taken]) d same
      linarith
    rw [left]
    exact ((first (by simp [taken])).pass passed (before _ (by simp [taken]))).removeIfHeld
      (pass_valid passed _) other
  · exact (unflushed op).elim

/-- Quiet calls at readings before the deadline. -/
theorem Holds.run (h : s.Valid) (holds : Holds k v deadline s) {calls : List StoreCall}
    (quiet : ∀ c ∈ calls, Quiet k c) (unexpired : machine.Along (fun s c => ¬ Expires k s c) s calls)
    (before : ∀ r ∈ machine.collect taken s calls, ∀ d ∈ deadline, r < d) :
    Holds k v deadline (machine.after s calls) := by
  induction calls generalizing s with
  | nil => exact holds
  | cons c calls ih =>
    refine ih (perform_valid h c) (holds.step h (quiet c (by simp)) unexpired.1 fun r member => ?_)
      (fun c' member => quiet c' (by simp [member])) unexpired.2 (fun r member => ?_)
    · exact before r (List.mem_append_left _ member)
    · exact before r (List.mem_append_right _ member)

/-- A successful `expire` with time left gives the key, whose value it has not changed, its
deadline. -/
theorem Holds.expired (h : s.Valid) (kept : ∀ x, s.data.get? k = some x → x = v) {c : StoreCall}
    {n : Int} (op : c.op = .expire k n) (quiet : Quiet k c) (succeeded : Expires k s c) :
    Holds k v (some (c.clock 1 + n)) (s.perform c).2 := by
  have positive : 0 < n := by
    by_contra negative
    exact quiet.2.2.1 n (by omega) op
  have held := (expires_iff op).mp succeeded
  obtain ⟨x, found⟩ := Dict.contains_iff.mp held
  obtain ⟨op', clock⟩ := c
  have op : op' = .expire k n := op
  subst op
  have left : (s.perform ⟨.expire k n, clock⟩).2 = (s.pass (clock 0)).withDeadline k (clock 1 + n) := by
    have run : (s.perform ⟨.expire k n, clock⟩).2 = (Id.run (s.expire clock k n)).2 := rfl
    have held : (s.pass (clock 0)).data.contains k = true := held
    rw [run, expire_exact, if_pos held, if_neg (by omega)]
  have same : x = v := kept x (pass_data_sub h found)
  rw [left, Holds, withDeadline_expiresAt, if_pos rfl]
  exact ⟨same ▸ found, rfl⟩

/-- The value of a key after calls that do not set it is the one it had, if it has one. -/
theorem run_data_sub (h : s.Valid) (kept : ∀ x, s.data.get? k = some x → x = v)
    {calls : List StoreCall} (quiet : ∀ c ∈ calls, Quiet k c) :
    ∀ x, (machine.after s calls).data.get? k = some x → x = v :=
  (machine.invariant_along (I := fun s => s.Valid ∧ ∀ x, s.data.get? k = some x → x = v) ⟨h, kept⟩
    (Machine.along_of_forall s quiet) fun _ c ⟨valid, kept⟩ quiet =>
      ⟨perform_valid valid c, fun x found => kept x (perform_data_sub valid quiet.1 found)⟩).2

/-- What has become of a key's time since its last set: no `expire` has succeeded, or every
reading since the latest that did, and `now`, is before the deadline it set. -/
def TimeLeft (k : String) (s : MemoryStore ℚ) (calls : List StoreCall) (now : ℚ) : Prop :=
  machine.Along (fun s c => ¬ Expires k s c) s calls ∨
    ∃ before n clock since, calls = before ++ ⟨.expire k n, clock⟩ :: since ∧
      let s' := machine.after s before
      let s'' := (s'.perform ⟨.expire k n, clock⟩).2
      Expires k s' ⟨.expire k n, clock⟩ ∧ machine.Along (fun s c => ¬ Expires k s c) s'' since ∧
        (∀ r ∈ machine.collect taken s'' since, r < clock 1 + n) ∧ now < clock 1 + n

/-- A key that was set and left to itself is read back while it has time left. -/
theorem get_of_timeLeft (h : s.Valid) {clock : Clock ℚ} {calls : List StoreCall}
    (quiet : ∀ c ∈ calls, Quiet k c)
    {now : Clock ℚ} (time : TimeLeft k (s.perform ⟨.set k v, clock⟩).2 calls (now 0)) :
    (Id.run ((machine.after (s.perform ⟨.set k v, clock⟩).2 calls).get now k)).1 = some v := by
  set stored := (s.perform ⟨.set k v, clock⟩).2 with hstored
  have valid : stored.Valid := perform_valid h _
  have fresh : Holds k v none stored := by
    rw [hstored, show (s.perform ⟨.set k v, clock⟩).2 = (s.pass (clock 0)).put k v from rfl, Holds,
      put_data, put_expiresAt]
    simp
  have final : ∃ deadline, Holds k v deadline (machine.after stored calls) ∧
      ∀ d ∈ deadline, now 0 < d := by
    rcases time with unexpired | ⟨before, n, at_, since, rfl, succeeded, unexpired, early, last⟩
    · exact ⟨none, fresh.run valid quiet unexpired (by simp), by simp⟩
    · have kept : ∀ x, stored.data.get? k = some x → x = v := by
        intro x found
        exact (Option.some.inj (fresh.1.symm.trans found)).symm
      have quietBefore : ∀ c ∈ before, Quiet k c := fun c member => quiet c (by simp [member])
      have keptBefore := run_data_sub valid kept quietBefore
      have reached := run_valid valid before
      have timed := Holds.expired reached keptBefore (c := ⟨.expire k n, at_⟩) rfl
        (quiet _ (by simp)) succeeded
      refine ⟨some (at_ 1 + n), ?_, by simpa using last⟩
      rw [Machine.after_append]
      exact timed.run (perform_valid reached _) (fun c member => quiet c (by simp [member]))
        unexpired (by simpa using early)
  obtain ⟨deadline, holds, ahead⟩ := final
  rw [get_exact]
  exact (holds.pass (run_valid valid calls) ahead).1

/-- **No live key is lost or changed early.** In any history of calls and replayed requests on
a store that starts empty, at any readings, a key set to a value and then left to itself is read
back while it has time left. -/
theorem live_key_kept (tick : ℚ) (count : Nat) (tick_pos : 0 < tick) (count_pos : 0 < count)
    (history : List StoreStep) (before : List StoreCall) (k v : String) (clock : Clock ℚ)
    (calls : List StoreCall)
    (split : history.flatMap StoreStep.calls = before ++ ⟨.set k v, clock⟩ :: calls)
    (quiet : ∀ c ∈ calls, Quiet k c) (now : Clock ℚ)
    (time : TimeLeft k ((machine.after (start tick count tick_pos count_pos) before).perform
      ⟨.set k v, clock⟩).2 calls (now 0)) :
    (Id.run ((history.foldl advance (start tick count tick_pos count_pos)).get now k)).1 = some v := by
  rw [run_eq_after, split, Machine.after_append]
  exact get_of_timeLeft (run_valid (start_valid tick count tick_pos count_pos) before) quiet time

/-- A replayed `SET`, an `expire`, an `expire` of the key for longer, and another key's end after
the first deadline; the clock once goes back. -/
def renewedHistory : List StoreStep :=
  [.replay { command := .SET, args := ["k", "v"] } (Clock.still 3),
   .call ⟨.expire "k" 5, Clock.still 2⟩, .call ⟨.set "other" "w", Clock.still 2⟩,
   .call ⟨.expire "k" 20, Clock.still 4⟩, .call ⟨.delete "other", Clock.still 11⟩]

theorem renewed_history_kept :
    (Id.run ((renewedHistory.foldl advance (start 1 4 unit_tick (by decide))).get
      (Clock.still 23) "k")).1 = some "v" := by
  refine live_key_kept 1 4 unit_tick (by decide) renewedHistory
    [⟨.processExpirations none, Clock.still 3⟩] "k" "v" (Clock.still 3)
    [⟨.expire "k" 5, Clock.still 2⟩, ⟨.set "other" "w", Clock.still 2⟩,
      ⟨.expire "k" 20, Clock.still 4⟩, ⟨.delete "other", Clock.still 11⟩] rfl ?_ (Clock.still 23)
    (Or.inr ⟨[⟨.expire "k" 5, Clock.still 2⟩, ⟨.set "other" "w", Clock.still 2⟩], 20, Clock.still 4,
      [⟨.delete "other", Clock.still 11⟩], rfl, ⟨⟨20, rfl⟩, by decide +kernel⟩, ?_, ?_, ?_⟩)
  · intro c member
    simp only [List.mem_cons, List.not_mem_nil, or_false] at member
    rcases member with rfl | rfl | rfl | rfl <;> simp [Quiet] <;> rintro n negative rfl <;> omega
  · refine ⟨?_, trivial⟩
    rintro ⟨⟨_, op⟩, _⟩
    cases op
  · decide +kernel
  · decide +kernel

end LiteStore.MemoryStore
