import LiteStore.Commands.Answers

/-!
# Where answers come from

A store holds keys and values that commands gave it, and answers with keys and values it holds.
So what is true of every argument is true of every text in the store (`Told`) and of every value
in an answer (`Speaks`), whatever the timestamps and their arithmetic.
-/

namespace LiteStore
set_option autoImplicit false
open Py MemoryStore

variable {τ : Type} [LinearOrder τ] [Zero τ] {m : Type → Type} [PyMonad m] [TimeArith m τ]
  {P : String → Prop} {s : MemoryStore τ} {clock : Clock τ}

/-- `P` holds of every key and value. -/
def Told (P : String → Prop) (s : MemoryStore τ) : Prop :=
  ∀ k v, s.data.get? k = some v → P k ∧ P v

/-- `P` holds of the value and of the array entries. -/
def Speaks (P : String → Prop) (response : CommandResponse) : Prop :=
  (∀ v, response.value = some v → P v) ∧ ∀ v, some v ∈ response.values → P v

omit [PyMonad m] [TimeArith m τ] in
theorem told_fresh (wheel : TimingWheel τ) : Told P (fresh wheel) := by
  rintro k v ⟨⟩

theorem Told.drainDue (h : Told P s) {now : τ} {r : Nat × MemoryStore τ}
    (done : PyMonad.outcome (s.drainDue (m := m) now) = .ok r) : Told P r.2 := by
  intro k v found
  rcases drainDue_sameButDue done k with ⟨same, _⟩ | ⟨gone, _⟩
  · exact h k v (same ▸ found)
  · rw [gone] at found
    cases found

theorem Told.processExpirations (h : Told P s) {now : Option τ} {r : Nat × MemoryStore τ}
    (done : PyMonad.outcome (s.processExpirations (m := m) clock now) = .ok r) : Told P r.2 :=
  h.drainDue done

omit [PyMonad m] [TimeArith m τ] in
theorem Told.put (h : Told P s) {key value : String} (k : P key) (v : P value) :
    Told P (s.put key value) := by
  intro k' v' found
  rw [MemoryStore.put, clearExpiry, Dict.get?_set] at found
  split at found
  · rename_i same
    cases found
    exact ⟨same ▸ k, v⟩
  · exact h k' v' found

omit [PyMonad m] [TimeArith m τ] in
theorem Told.remove (h : Told P s) (key : String) : Told P (s.remove key) := by
  intro k v found
  rw [MemoryStore.remove, clearExpiry, Dict.get?_erase] at found
  split at found
  · cases found
  · exact h k v found

theorem Told.set (h : Told P s) {key value : String} (k : P key) (v : P value) {s' : MemoryStore τ}
    (done : PyMonad.outcome (s.set (m := m) clock key value) = .ok s') : Told P s' := by
  simp only [MemoryStore.set, PyMonad.outcome_bind, bind_eq_ok, PyMonad.outcome_pure,
    Except.ok.injEq] at done
  obtain ⟨passed, ran, rfl⟩ := done
  exact (h.processExpirations ran).put k v

theorem Told.get (h : Told P s) {key : String} {r : Option String × MemoryStore τ}
    (done : PyMonad.outcome (s.get (m := m) clock key) = .ok r) :
    Told P r.2 ∧ ∀ v, r.1 = some v → P v := by
  simp only [MemoryStore.get, PyMonad.outcome_bind, bind_eq_ok, PyMonad.outcome_pure,
    Except.ok.injEq] at done
  obtain ⟨passed, ran, rfl⟩ := done
  exact ⟨h.processExpirations ran, fun v found => (h.processExpirations ran key v found).2⟩

theorem Told.delete (h : Told P s) {key : String} {r : Bool × MemoryStore τ}
    (done : PyMonad.outcome (s.delete (m := m) clock key) = .ok r) : Told P r.2 := by
  simp only [MemoryStore.delete, PyMonad.outcome_bind, bind_eq_ok, PyMonad.outcome_pure,
    Except.ok.injEq] at done
  obtain ⟨passed, ran, rfl⟩ := done
  split
  · exact (h.processExpirations ran).remove key
  · exact h.processExpirations ran

theorem Told.expire (h : Told P s) {key : String} {seconds : Int} {r : Bool × MemoryStore τ}
    (done : PyMonad.outcome (s.expire (m := m) clock key seconds) = .ok r) : Told P r.2 := by
  rw [MemoryStore.expire, PyMonad.outcome_bind, bind_eq_ok] at done
  obtain ⟨passed, ran, done⟩ := done
  have told := h.processExpirations ran
  dsimp only at done
  split at done
  · rw [PyMonad.outcome_pure, Except.ok.injEq] at done
    rw [← done]
    exact told
  split at done
  · simp only [PyMonad.outcome_bind, bind_eq_ok, PyMonad.outcome_pure, Except.ok.injEq] at done
    obtain ⟨deleted, gone, rfl⟩ := done
    have := told.delete gone
    exact this
  · simp only [PyMonad.outcome_bind, bind_eq_ok, PyMonad.outcome_pure, Except.ok.injEq] at done
    obtain ⟨_, _, _, _, rfl⟩ := done
    exact told

theorem Told.ttl (h : Told P s) {key : String} {r : Int × MemoryStore τ}
    (done : PyMonad.outcome (s.ttl (m := m) clock key) = .ok r) : Told P r.2 := by
  rw [MemoryStore.ttl, PyMonad.outcome_bind, bind_eq_ok] at done
  obtain ⟨passed, ran, done⟩ := done
  have told := h.processExpirations ran
  dsimp only at done
  split at done
  · rw [PyMonad.outcome_pure, Except.ok.injEq] at done
    rw [← done]
    exact told
  split at done
  · rw [PyMonad.outcome_pure, Except.ok.injEq] at done
    rw [← done]
    exact told
  · rw [PyMonad.outcome_bind, bind_eq_ok] at done
    obtain ⟨remaining, _, done⟩ := done
    split at done
    · simp only [PyMonad.outcome_bind, bind_eq_ok, PyMonad.outcome_pure, Except.ok.injEq] at done
      obtain ⟨deleted, gone, rfl⟩ := done
      have := told.delete gone
      exact this
    · rw [PyMonad.outcome_pure, Except.ok.injEq] at done
      rw [← done]
      exact told

theorem Told.snapshot (h : Told P s) {r : Dict String String × MemoryStore τ}
    (done : PyMonad.outcome (s.snapshot (m := m) clock) = .ok r) : Told P r.2 := by
  simp only [MemoryStore.snapshot, PyMonad.outcome_bind, bind_eq_ok, PyMonad.outcome_pure,
    Except.ok.injEq] at done
  obtain ⟨passed, ran, rfl⟩ := done
  exact h.processExpirations ran

theorem Told.keys (h : Told P s) {pattern : String} {r : List String × MemoryStore τ}
    (done : PyMonad.outcome (s.keys (m := m) clock pattern) = .ok r) :
    Told P r.2 ∧ ∀ k ∈ r.1, P k := by
  simp only [MemoryStore.keys, PyMonad.outcome_bind, bind_eq_ok, PyMonad.outcome_pure,
    Except.ok.injEq] at done
  obtain ⟨passed, ran, rfl⟩ := done
  refine ⟨h.processExpirations ran, fun k m => ?_⟩
  obtain ⟨v, found⟩ := Dict.mem_keys.mp (List.mem_of_mem_filter m)
  exact (h.processExpirations ran k v found).1

theorem told_flush [Timestamp τ] {r : Nat × MemoryStore τ}
    (done : PyMonad.outcome (s.flush (m := m) clock) = .ok r) : Told P r.2 := by
  simp only [MemoryStore.flush, PyMonad.outcome_bind, bind_eq_ok, PyMonad.outcome_pure,
    Except.ok.injEq] at done
  obtain ⟨_, _, rfl⟩ := done
  exact told_fresh _

theorem Told.getAll (h : Told P s) {keys : List String} {r : List (Option String) × MemoryStore τ}
    (done : PyMonad.outcome (getAll (m := m) s clock keys) = .ok r) :
    Told P r.2 ∧ ∀ v, some v ∈ r.1 → P v := by
  induction keys generalizing s clock r with
  | nil =>
    rw [LiteStore.getAll, PyMonad.outcome_pure, Except.ok.injEq] at done
    subst done
    exact ⟨h, fun v m => by cases m⟩
  | cons k keys ih =>
    simp only [LiteStore.getAll, PyMonad.outcome_bind, bind_eq_ok, PyMonad.outcome_pure,
      Except.ok.injEq] at done
    obtain ⟨first, got, rest, more, rfl⟩ := done
    have told := h.get got
    have := ih told.1 more
    refine ⟨this.1, fun v m => ?_⟩
    rcases List.mem_cons.mp m with here | later
    · exact told.2 v here.symm
    · exact this.2 v later

omit [LinearOrder τ] [Zero τ] [PyMonad m] [TimeArith m τ] in
/-- An answer that carries neither a value nor an array. -/
theorem speaks_of_none {response : CommandResponse} (value : response.value = none)
    (values : response.values = []) : Speaks P response := by
  rw [Speaks, value, values]
  exact ⟨by rintro v ⟨⟩, by rintro v ⟨⟩⟩

theorem speaks_valueResponse (request : CommandRequest) {v : Option String}
    (spoken : ∀ w, v = some w → P w) : Speaks P (valueResponse request v) := by
  cases v with
  | none => exact speaks_of_none rfl rfl
  | some w => exact ⟨by rintro _ ⟨⟩; exact spoken w rfl, by rintro w ⟨⟩⟩

/-- **A command** tells the store its arguments only, and answers from the store only. -/
theorem executeCommand_told [Timestamp τ] {request : CommandRequest} {r : CommandResponse × MemoryStore τ}
    (h : Told P s) (args : ∀ a ∈ request.args, P a)
    (done : PyMonad.outcome (executeCommand (m := m) request s clock) = .ok r) :
    Told P r.2 ∧ Speaks P r.1 := by
  cases executeCommand_ran done with
  | wrongArity expected => exact ⟨h, speaks_of_none rfl rfl⟩
  | error code message known => exact ⟨h, speaks_of_none rfl rfl⟩
  | ping => exact ⟨h, speaks_of_none rfl rfl⟩
  | @set key value named _ stored =>
    rw [named] at args
    exact ⟨h.set (args key (by simp)) (args value (by simp)) stored, speaks_of_none rfl rfl⟩
  | get got => exact ⟨(h.get got).1, speaks_valueResponse _ (h.get got).2⟩
  | delete deleted => exact ⟨h.delete deleted, speaks_of_none rfl rfl⟩
  | expire timed => exact ⟨h.expire timed, speaks_of_none rfl rfl⟩
  | ttl asked => exact ⟨h.ttl asked, speaks_of_none rfl rfl⟩
  | mget got => exact ⟨(h.getAll got).1, by rintro v ⟨⟩, (h.getAll got).2⟩
  | keys matched =>
    refine ⟨(h.keys matched).1, by rintro v ⟨⟩, fun v there => ?_⟩
    obtain ⟨k, there, same⟩ := List.mem_map.mp there
    cases same
    exact (h.keys matched).2 v there
  | flush flushed => exact ⟨told_flush flushed, speaks_of_none rfl rfl⟩

end LiteStore
