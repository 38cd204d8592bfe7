import LiteStore.Store.Coherent
import LiteStore.Wheel.Raising

/-!
# The store where time can raise

When each operation of a coherent store returns, in terms of the store before it and of its
readings: its passes need a tick for their reading (`Ticked`), a deadline must be computed and
scheduled, and the seconds that are left must be a number. What an operation leaves is coherent
again.
-/

namespace LiteStore.MemoryStore
set_option autoImplicit false
open Py TimingWheel

variable {τ : Type} [LinearOrder τ] [Zero τ] [TimeArith (Except PyError) τ] {s : MemoryStore τ}
  {clock : Clock τ} {key : String}

/-- The reading `t` of an operation that reads `first` first has a tick. -/
def Ticked (s : MemoryStore τ) (first t : τ) : Prop :=
  HasTick t (s.timingWheel.originTimestamp.getD first) s.timingWheel.tickSeconds

/-- The tick of the reading `t`. -/
def currentTick (s : MemoryStore τ) (t : τ) : Int :=
  tickOf t (s.timingWheel.originTimestamp.getD t) s.timingWheel.tickSeconds

/-- A pass at `t` removes the key. -/
def Lapses (s : MemoryStore τ) (t : τ) (key : String) : Prop := s.DueAt t (s.currentTick t) key

/-- The key is held, and a pass at `t` leaves it. -/
def Live (s : MemoryStore τ) (t : τ) (key : String) : Prop :=
  s.data.contains key = true ∧ ¬ s.Lapses t key

/-! ## The expiry pass -/

/-- What a pass at `t` leaves. -/
def passed (s : MemoryStore τ) (t : τ) : MemoryStore τ := (s.drainAt t (s.currentTick t)).2

/-- **A pass** returns when its reading has a tick. -/
theorem drainDue_ok {t : τ} {r : Nat × MemoryStore τ} :
    s.drainDue (m := Except PyError) t = .ok r ↔ s.Ticked t t ∧ r = s.drainAt t (s.currentTick t) := by
  rw [drainDue, bind_eq_ok]
  constructor
  · rintro ⟨popped, ran, same⟩
    obtain ⟨defined, rfl⟩ := popDue_ok.mp ran
    exact ⟨defined, (Except.ok.inj same).symm⟩
  · rintro ⟨defined, rfl⟩
    exact ⟨_, popDue_ok.mpr ⟨defined, rfl⟩, rfl⟩

omit [LinearOrder τ] [Zero τ] [TimeArith (Except PyError) τ] in
theorem pure_ok {α : Type} {a b : α} : (pure a : Except PyError α) = .ok b ↔ b = a :=
  ⟨fun same => (Except.ok.inj same).symm, fun same => congrArg Except.ok same.symm⟩

/-- An operation starts with a pass. -/
theorem pass_then {α : Type} {f : Nat × MemoryStore τ → Except PyError α} {b : α} :
    (s.processExpirations clock none >>= f) = .ok b ↔ s.Ticked (clock 0) (clock 0) ∧
      f (s.drainAt (clock 0) (s.currentTick (clock 0))) = .ok b := by
  rw [bind_eq_ok]
  constructor
  · rintro ⟨r, ran, rest⟩
    obtain ⟨defined, rfl⟩ := drainDue_ok.mp ran
    exact ⟨defined, rest⟩
  · rintro ⟨defined, rest⟩
    exact ⟨_, drainDue_ok.mpr ⟨defined, rfl⟩, rest⟩

section Passed

variable (h : s.Coherent) (t : τ)
include h

theorem passed_coherent : (s.passed t).Coherent := drainAt_coherent t _ h

theorem passed_contains : (s.passed t).data.contains key = true ↔ s.Live t key := by
  rw [Dict.contains_iff, Live, Dict.contains_iff]
  constructor
  · rintro ⟨v, found⟩
    obtain ⟨found, stays⟩ := (drainAt_data t _ h key v).mp found
    exact ⟨⟨v, found⟩, stays⟩
  · rintro ⟨⟨v, found⟩, stays⟩
    exact ⟨v, (drainAt_data t _ h key v).mpr ⟨found, stays⟩⟩

theorem passed_expiresAt (k : String) (d : τ) :
    (s.passed t).expiresAt.get? k = some d ↔ s.expiresAt.get? k = some d ∧ ¬ s.Lapses t k :=
  drainAt_expiresAt t _ h k d

/-- Later readings are counted from the same origin. -/
theorem passed_ticked (first later : τ) : (s.passed t).Ticked first later ↔ s.Ticked t later := by
  obtain ⟨seconds, origin, _⟩ := drainAt_frame t (s.currentTick t) h
  rw [Ticked, passed, seconds, origin, Option.getD_some, Ticked]

end Passed

/-! ## The operations -/

theorem set_ok {value : String} {s' : MemoryStore τ} :
    s.set (m := Except PyError) clock key value = .ok s' ↔
      s.Ticked (clock 0) (clock 0) ∧ s' = (s.passed (clock 0)).put key value := by
  rw [set, pass_then]
  exact and_congr_right fun _ => pure_ok

theorem get_ok {r : Option String × MemoryStore τ} :
    s.get (m := Except PyError) clock key = .ok r ↔ s.Ticked (clock 0) (clock 0) ∧
      r = ((s.passed (clock 0)).data.get? key, s.passed (clock 0)) := by
  rw [get, pass_then]
  exact and_congr_right fun _ => pure_ok

theorem delete_ok {r : Bool × MemoryStore τ} :
    s.delete (m := Except PyError) clock key = .ok r ↔ s.Ticked (clock 0) (clock 0) ∧
      r = if (s.passed (clock 0)).data.contains key then (true, (s.passed (clock 0)).remove key)
        else (false, s.passed (clock 0)) := by
  rw [delete, pass_then]
  exact and_congr_right fun _ => pure_ok

theorem snapshot_ok {r : Dict String String × MemoryStore τ} :
    s.snapshot (m := Except PyError) clock = .ok r ↔ s.Ticked (clock 0) (clock 0) ∧
      r = ((s.passed (clock 0)).data, s.passed (clock 0)) := by
  rw [snapshot, pass_then]
  exact and_congr_right fun _ => pure_ok

theorem keys_ok {pattern : String} {r : List String × MemoryStore τ} :
    s.keys (m := Except PyError) clock pattern = .ok r ↔ s.Ticked (clock 0) (clock 0) ∧
      r = ((s.passed (clock 0)).data.keys.filter fun k => fnmatch k pattern, s.passed (clock 0)) := by
  rw [keys, pass_then]
  exact and_congr_right fun _ => pure_ok

theorem flush_ok [Timestamp τ] {r : Nat × MemoryStore τ} :
    s.flush (m := Except PyError) clock = .ok r ↔ s.Ticked (clock 0) (clock 0) ∧
      r = ((s.passed (clock 0)).data.size, fresh TimingWheel.default) := by
  rw [flush, pass_then]
  exact and_congr_right fun _ => pure_ok

/-- `schedule` returns after a pass at `first`: the deadline has a tick, from the earlier of the
origin and itself, and if it is the earlier one then what a rebase computes has ticks. -/
structure Schedulable (s : MemoryStore τ) (first d : τ) : Prop where
  tick : HasTick d (min (s.timingWheel.originTimestamp.getD first) d) s.timingWheel.tickSeconds
  last : d < s.timingWheel.originTimestamp.getD first →
    0 ≤ max s.timingWheel.lastProcessedTick (s.currentTick first) → ∃ t,
      TimeArith.afterTicks (m := Except PyError) d
        (max s.timingWheel.lastProcessedTick (s.currentTick first)) s.timingWheel.tickSeconds = .ok t ∧
        HasTick t d s.timingWheel.tickSeconds
  entries : d < s.timingWheel.originTimestamp.getD first → ∀ k d', s.expiresAt.get? k = some d' →
    ¬ s.Lapses first k → HasTick d' d s.timingWheel.tickSeconds

theorem passed_schedulable (h : s.Coherent) (first d : τ) :
    (s.passed first).timingWheel.Schedulable d ↔ s.Schedulable first d := by
  obtain ⟨seconds, origin, last⟩ := drainAt_frame first (s.currentTick first) h
  have coherent := passed_coherent h first
  constructor
  · rintro ⟨tick, rebase⟩
    rw [passed, seconds, origin, Option.getD_some] at tick
    refine ⟨tick, fun early => ?_, fun early k d' timed stays => ?_⟩
    · have := (rebase _ origin early).last
      rwa [passed, seconds, last] at this
    · have := (rebase _ origin early).entries k d'
      rw [coherent.timed, passed_expiresAt h, passed, seconds] at this
      exact this ⟨timed, stays⟩
  · rintro ⟨tick, rebased, entries⟩
    refine ⟨by rwa [passed, seconds, origin, Option.getD_some], fun o known early => ⟨?_, ?_⟩⟩
    · cases origin.symm.trans known
      rw [passed, seconds, last]
      exact rebased early
    · intro k d' pending
      cases origin.symm.trans known
      rw [coherent.timed, passed_expiresAt h] at pending
      rw [passed, seconds]
      exact entries early k d' pending.1 pending.2

/-- `expire` after its pass. -/
theorem expire_run {n : Int} {r : Bool × MemoryStore τ} :
    s.expire (m := Except PyError) clock key n = .ok r ↔ s.Ticked (clock 0) (clock 0) ∧
      if (s.passed (clock 0)).data.contains key then
        if n ≤ 0 then ∃ deleted, (s.passed (clock 0)).delete (m := Except PyError) (clock.drop 1) key =
          .ok deleted ∧ r = (true, deleted.2)
        else ∃ d, TimeArith.addSeconds (m := Except PyError) (clock 1) n = .ok d ∧
          ∃ w, (s.passed (clock 0)).timingWheel.schedule (m := Except PyError) key d = .ok w ∧
            r = (true, { s.passed (clock 0) with
              expiresAt := (s.passed (clock 0)).expiresAt.set key d, timingWheel := w })
      else r = (false, s.passed (clock 0)) := by
  rw [expire, pass_then]
  refine and_congr_right fun _ => ?_
  dsimp only
  rw [← passed]
  cases held : (s.passed (clock 0)).data.contains key with
  | false => exact pure_ok
  | true =>
    simp only [Bool.not_true, Bool.false_eq_true, if_false, if_true]
    split
    · simp only [bind_eq_ok, pure_ok]
    · simp only [bind_eq_ok, pure_ok]

/-- **`expire`** on a live key reads the clock again, for a deadline or for the pass of a `delete`. -/
theorem expire_ok (h : s.Coherent) {n : Int} :
    Returns (s.expire (m := Except PyError) clock key n) ↔ s.Ticked (clock 0) (clock 0) ∧
      (s.Live (clock 0) key →
        (n ≤ 0 → s.Ticked (clock 0) (clock 1)) ∧
        (0 < n → ∃ d, TimeArith.addSeconds (m := Except PyError) (clock 1) n = .ok d ∧
          s.Schedulable (clock 0) d)) := by
  show (∃ r, s.expire (m := Except PyError) clock key n = .ok r) ↔ _
  simp only [expire_run, exists_and_left]
  refine and_congr_right fun _ => ?_
  rw [← passed_contains h]
  split
  · rename_i held
    rw [imp_iff_right held]
    split
    · rename_i negative
      rw [imp_iff_right negative, and_iff_left fun positive => absurd negative (not_le.mpr positive)]
      rw [← passed_ticked h (clock 0) (clock 1)]
      constructor
      · rintro ⟨_, deleted, ran, _⟩
        exact (delete_ok.mp ran).1
      · intro ticked
        exact ⟨_, _, delete_ok.mpr ⟨ticked, rfl⟩, rfl⟩
    · rename_i positive
      rw [imp_iff_right (not_le.mp positive), and_iff_right fun negative => absurd negative positive]
      simp only [← passed_schedulable h, ← schedule_ok key (passed_coherent h (clock 0)).wheel]
      constructor
      · rintro ⟨_, d, added, w, filed, _⟩
        exact ⟨d, added, w, filed⟩
      · rintro ⟨d, added, w, filed⟩
        exact ⟨_, d, added, w, filed, rfl⟩
  · rename_i absent
    exact ⟨fun _ held => absurd held absent, fun _ => ⟨_, rfl⟩⟩

/-- `ttl` after its pass. -/
theorem ttl_run {r : Int × MemoryStore τ} :
    s.ttl (m := Except PyError) clock key = .ok r ↔ s.Ticked (clock 0) (clock 0) ∧
      if (s.passed (clock 0)).data.contains key then
        ((s.passed (clock 0)).expiresAt.get? key = none ∧ r = (-1, s.passed (clock 0))) ∨
        ∃ d, (s.passed (clock 0)).expiresAt.get? key = some d ∧
          ∃ remaining, TimeArith.wholeSeconds (m := Except PyError) d (clock 1) = .ok remaining ∧
            if remaining < 0 then
              ∃ deleted, (s.passed (clock 0)).delete (m := Except PyError) (clock.drop 2) key =
                .ok deleted ∧ r = (-2, deleted.2)
            else r = (remaining, s.passed (clock 0))
      else r = (-2, s.passed (clock 0)) := by
  rw [ttl, pass_then]
  refine and_congr_right fun _ => ?_
  dsimp only
  rw [← passed]
  cases held : (s.passed (clock 0)).data.contains key with
  | false => exact pure_ok
  | true =>
    simp only [Bool.not_true, Bool.false_eq_true, if_false, if_true]
    cases timed : (s.passed (clock 0)).expiresAt.get? key with
    | none => simp only [pure_ok, true_and, reduceCtorEq, false_and, exists_false, or_false]
    | some d =>
      simp only [reduceCtorEq, false_and, false_or, Option.some.injEq, exists_eq_left', bind_eq_ok]
      refine exists_congr fun remaining => and_congr_right fun _ => ?_
      split
      · simp only [bind_eq_ok, pure_ok]
      · exact pure_ok

/-- **`ttl`** of a key with a deadline reads the clock again, and once more if no time is left. -/
theorem ttl_ok (h : s.Coherent) :
    Returns (s.ttl (m := Except PyError) clock key) ↔ s.Ticked (clock 0) (clock 0) ∧
      (s.Live (clock 0) key → ∀ d, s.expiresAt.get? key = some d →
        ∃ remaining, TimeArith.wholeSeconds (m := Except PyError) d (clock 1) = .ok remaining ∧
          (remaining < 0 → s.Ticked (clock 0) (clock 2))) := by
  show (∃ r, s.ttl (m := Except PyError) clock key = .ok r) ↔ _
  simp only [ttl_run, exists_and_left]
  refine and_congr_right fun _ => ?_
  have left : (s.passed (clock 0)).data.contains key = true ↔ s.Live (clock 0) key :=
    passed_contains h (clock 0)
  split
  · rename_i held
    have live := left.mp held
    constructor
    · rintro ⟨r, ⟨none, _⟩ | ⟨d', timed', remaining, computed, rest⟩⟩ _ d timed
      · rw [(passed_expiresAt h _ _ _).mpr ⟨timed, live.2⟩] at none
        cases none
      · cases timed.symm.trans ((passed_expiresAt h _ _ _).mp timed').1
        refine ⟨remaining, computed, fun negative => ?_⟩
        rw [if_pos negative] at rest
        obtain ⟨deleted, ran, _⟩ := rest
        exact (passed_ticked h (clock 0) _ _).mp (delete_ok.mp ran).1
    · intro each
      cases timed : (s.passed (clock 0)).expiresAt.get? key with
      | none => exact ⟨_, Or.inl ⟨rfl, rfl⟩⟩
      | some d =>
        obtain ⟨remaining, computed, later⟩ := each live d ((passed_expiresAt h _ _ _).mp timed).1
        by_cases negative : remaining < 0
        · have ticked := (passed_ticked h (clock 0) (clock 2) _).mpr (later negative)
          obtain ⟨deleted, ran⟩ : ∃ deleted, (s.passed (clock 0)).delete (m := Except PyError)
              (clock.drop 2) key = .ok deleted := ⟨_, delete_ok.mpr ⟨ticked, rfl⟩⟩
          refine ⟨(-2, deleted.2), Or.inr ⟨d, rfl, remaining, computed, ?_⟩⟩
          rw [if_pos negative]
          exact ⟨deleted, ran, rfl⟩
        · refine ⟨(remaining, s.passed (clock 0)), Or.inr ⟨d, rfl, remaining, computed, ?_⟩⟩
          rw [if_neg negative]
  · rename_i absent
    exact ⟨fun _ live => absurd (left.mpr live) absent, fun _ => ⟨_, rfl⟩⟩

/-! ## Coherence -/

section Kept

variable (h : s.Coherent)
include h

theorem Coherent.set {value : String} {s' : MemoryStore τ}
    (done : s.set (m := Except PyError) clock key value = .ok s') : s'.Coherent := by
  obtain ⟨_, rfl⟩ := set_ok.mp done
  exact put_coherent (passed_coherent h _) key value

theorem Coherent.get {r : Option String × MemoryStore τ}
    (done : s.get (m := Except PyError) clock key = .ok r) : r.2.Coherent := by
  obtain ⟨_, rfl⟩ := get_ok.mp done
  exact passed_coherent h _

theorem Coherent.delete {r : Bool × MemoryStore τ}
    (done : s.delete (m := Except PyError) clock key = .ok r) : r.2.Coherent := by
  obtain ⟨_, rfl⟩ := delete_ok.mp done
  split
  · exact remove_coherent (passed_coherent h _) key
  · exact passed_coherent h _

theorem Coherent.expire {n : Int} {r : Bool × MemoryStore τ}
    (done : s.expire (m := Except PyError) clock key n = .ok r) : r.2.Coherent := by
  have coherent := passed_coherent h (clock 0)
  obtain ⟨_, done⟩ := expire_run.mp done
  split at done
  · rename_i held
    split at done
    · obtain ⟨deleted, ran, rfl⟩ := done
      have := coherent.delete ran
      exact this
    · obtain ⟨d, _, w, filed, rfl⟩ := done
      obtain ⟨indexed, deadlines⟩ := schedule_files coherent.wheel filed
      exact timed_coherent coherent held indexed deadlines
  · rw [done]
    exact coherent

theorem Coherent.ttl {r : Int × MemoryStore τ}
    (done : s.ttl (m := Except PyError) clock key = .ok r) : r.2.Coherent := by
  have coherent := passed_coherent h (clock 0)
  obtain ⟨_, done⟩ := ttl_run.mp done
  split at done
  · obtain ⟨_, rfl⟩ | ⟨d, _, remaining, _, done⟩ := done
    · exact coherent
    · split at done
      · obtain ⟨deleted, ran, rfl⟩ := done
        have := coherent.delete ran
        exact this
      · rw [done]
        exact coherent
  · rw [done]
    exact coherent

theorem Coherent.keys {pattern : String} {r : List String × MemoryStore τ}
    (done : s.keys (m := Except PyError) clock pattern = .ok r) : r.2.Coherent := by
  obtain ⟨_, rfl⟩ := keys_ok.mp done
  exact passed_coherent h _

theorem Coherent.snapshot {r : Dict String String × MemoryStore τ}
    (done : s.snapshot (m := Except PyError) clock = .ok r) : r.2.Coherent := by
  obtain ⟨_, rfl⟩ := snapshot_ok.mp done
  exact passed_coherent h _

theorem Coherent.drainDue {t : τ} {r : Nat × MemoryStore τ}
    (done : s.drainDue (m := Except PyError) t = .ok r) : r.2.Coherent := by
  obtain ⟨_, rfl⟩ := drainDue_ok.mp done
  exact passed_coherent h _

omit h in
theorem flush_coherent [Timestamp τ] {r : Nat × MemoryStore τ}
    (done : s.flush (m := Except PyError) clock = .ok r) : r.2.Coherent := by
  obtain ⟨_, rfl⟩ := flush_ok.mp done
  exact fresh_coherent (fresh_indexed _ _ _ _) rfl

end Kept

end LiteStore.MemoryStore
