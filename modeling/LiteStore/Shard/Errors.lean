import LiteStore.Commands.Answers
import LiteStore.Shard.Single

/-!
# What an error answer leaves

The in-process runtime executes a request and then logs it, if it is a write. So
an error of the command itself is answered before anything but the expiry pass
has happened, while a write whose append fails is answered as an error after it
was executed, and stays.
-/

namespace LiteStore
set_option autoImplicit false
open Py MemoryStore

namespace LiteStoreRuntime

section Generic

variable {τ : Type} [LinearOrder τ] [Zero τ] [Timestamp τ] {m : Type → Type} [PyMonad m] [TimeArith m τ]
  (hash : String → Nat) {rt : LiteStoreRuntime τ} {clock : Clock τ} {request : CommandRequest}

omit [Timestamp τ] in
/-- All workers hold the values and deadlines they held, but for keys whose deadline had come. -/
def SameButDue (now : τ) (rt rt' : LiteStoreRuntime τ) : Prop :=
  ∀ id w, rt.workers.get? id = some w →
    ∃ w', rt'.workers.get? id = some w' ∧ MemoryStore.SameButDue now w.store w'.store

/-- A routed request runs one pass and one command on one worker. -/
theorem executeRouted_ok {run : CommandResponse × LiteStoreRuntime τ}
    (done : PyMonad.outcome (rt.executeRouted (m := m) hash clock request) = .ok run) :
    ∃ w passed r, rt.workers.get? (rt.router.routeRequest hash request).workerId = some w ∧
      PyMonad.outcome (w.store.drainDue (m := m) (clock 0)) = .ok passed ∧
      PyMonad.outcome (executeCommand (m := m) request passed.2 (clock.drop 1)) = .ok r ∧
      run = (r.1, rt.setWorker (rt.router.routeRequest hash request).workerId { w with store := r.2 }) := by
  simp only [executeRouted, StoreWorker.execute, PyMonad.outcome_bind, bind_eq_ok, PyMonad.outcome_pure,
    Except.ok.injEq] at done
  obtain ⟨_, ⟨passed, ran, r, answered, rfl⟩, rfl⟩ := done
  exact ⟨_, passed, r, (Option.some_get _).symm, ran, answered, rfl⟩

/-- **The command's own errors.** -/
theorem executeRouted_error {run : CommandResponse × LiteStoreRuntime τ}
    (done : PyMonad.outcome (rt.executeRouted (m := m) hash clock request) = .ok run) :
    run.1.errorCode ≠ some .PERSISTENCE_ERROR ∧ (run.1.kind = .ERROR → rt.SameButDue (clock 0) run.2) := by
  obtain ⟨w, passed, r, hosted, ran, answered, rfl⟩ := executeRouted_ok hash done
  obtain ⟨answer, harmless⟩ := executeCommand_harmless answered
  refine ⟨answer.errorCode_ne, fun error id v found => ?_⟩
  have lookup := Dict.get?_set rt.workers (rt.router.routeRequest hash request).workerId id
    { w with store := r.2 }
  rw [setWorker, lookup]
  split
  · rename_i here
    rw [here, hosted] at found
    cases found
    refine ⟨_, rfl, ?_⟩
    rw [harmless error]
    exact drainDue_sameButDue ran
  · exact ⟨v, found, MemoryStore.SameButDue.refl _ _⟩

omit [Timestamp τ] in
theorem logResponse_read {append : LogOutcome} {response : CommandResponse}
    (read : isPersistedWrite request response = false) :
    rt.logResponse append request response = (response, rt) := by
  unfold logResponse
  rw [read, if_neg Bool.false_ne_true]

omit [Timestamp τ] in
theorem logResponse_failed {append : LogOutcome} {response : CommandResponse}
    (write : isPersistedWrite request response = true) (raises : rt.persistence.Raises request append) :
    ∃ text, append.result = .error text ∧ rt.logResponse append request response =
      (persistenceErrorResponse request text, { rt with persistence := rt.persistence.failed request append }) := by
  obtain ⟨text, result, failed⟩ := AofPersistence.appendRequest_raises raises
  refine ⟨text, result, ?_⟩
  unfold logResponse
  rw [write, if_pos rfl, failed]

omit [Timestamp τ] in
theorem logResponse_logged {append : LogOutcome} {response : CommandResponse}
    (write : isPersistedWrite request response = true) (quiet : ¬ rt.persistence.Raises request append) :
    rt.logResponse append request response =
      (response, { rt with persistence := (rt.persistence.appended request).2 }) := by
  unfold logResponse
  rw [write, if_pos rfl, AofPersistence.appendRequest_returns quiet]

omit [Timestamp τ] in
/-- What is answered behind the log. -/
theorem logResponse_cases (rt : LiteStoreRuntime τ) (append : LogOutcome) (request : CommandRequest)
    (response : CommandResponse) :
    (rt.logResponse append request response).1 = response ∨
      ∃ text, append.result = .error text ∧
        (rt.logResponse append request response).1 = persistenceErrorResponse request text := by
  cases write : isPersistedWrite request response with
  | false => exact .inl (by rw [logResponse_read write])
  | true =>
    by_cases raises : rt.persistence.Raises request append
    · obtain ⟨text, result, failed⟩ := logResponse_failed write raises
      exact .inr ⟨text, result, by rw [failed]⟩
    · exact .inl (by rw [logResponse_logged write raises])

/-- **What an error answer leaves.** For any timestamps, any state and any request: an error other
than `PERSISTENCE_ERROR` leaves everything but due keys as it was, and `PERSISTENCE_ERROR` is the
answer to a write whose append raised, which leaves the workers as a successful append does. -/
theorem error_answer_leaves {append : LogOutcome} {answer : CommandResponse × LiteStoreRuntime τ}
    (answered : PyMonad.outcome (rt.dispatchRequest (m := m) hash clock append request) = .ok answer)
    (error : answer.1.kind = .ERROR) :
    (answer.1.errorCode ≠ some .PERSISTENCE_ERROR → rt.SameButDue (clock 0) answer.2) ∧
      (answer.1.errorCode = some .PERSISTENCE_ERROR → rt.persistence.Raises request append ∧
        ∃ logged, PyMonad.outcome (rt.dispatchRequest (m := m) hash clock .done request) = .ok logged ∧
          logged.1.kind ≠ .ERROR ∧ answer.2.workers = logged.2.workers) := by
  simp only [dispatchRequest, PyMonad.outcome_bind, bind_eq_ok, PyMonad.outcome_pure,
    Except.ok.injEq] at answered ⊢
  obtain ⟨run, done, rfl⟩ := answered
  obtain ⟨code, harmless⟩ := executeRouted_error hash done
  cases write : isPersistedWrite request run.1 with
  | false =>
    rw [logResponse_read write] at error ⊢
    exact ⟨fun _ => harmless error, fun failed => absurd failed code⟩
  | true =>
    -- A write was executed, and its own answer is no error.
    have fine : run.1.kind ≠ .ERROR := by
      intro bad
      simp [isPersistedWrite, mutates, bad] at write
    have log : run.2.persistence = rt.persistence := by
      obtain ⟨_, _, _, _, _, _, rfl⟩ := executeRouted_ok hash done
      rfl
    by_cases raises : run.2.persistence.Raises request append
    · obtain ⟨text, _, failed⟩ := logResponse_failed write raises
      rw [failed]
      refine ⟨fun other => absurd rfl other, fun _ => ⟨log ▸ raises, _, ⟨run, done, rfl⟩, ?_⟩⟩
      rw [logResponse_logged write (AofPersistence.not_raises_done _ request)]
      exact ⟨fine, rfl⟩
    · rw [logResponse_logged write raises] at error
      exact absurd error fine

end Generic

/-- An `EXPIRE` that is no number, when another key of its worker is due. -/
theorem unreadable_expire_leaves :
    let rt := [RuntimeEvent.dispatch { command := .SET, args := ["k", "v"] } (Clock.still 1) .done,
      .dispatch { command := .EXPIRE, args := ["k", "1"] } (Clock.still 1) .done].foldl
        (advance Sha256.leading) (started Sha256.leading 1 (by decide) [] fun _ => Clock.still 0)
    rt.SameButDue 5 (Id.run (rt.dispatchRequest Sha256.leading (Clock.still 5) .done
      { command := .EXPIRE, args := ["j", "soon"] })).2 := by
  intro rt
  have answered := outcome_exact (rt.dispatchRequest Sha256.leading (Clock.still 5) .done
    { command := .EXPIRE, args := ["j", "soon"] })
  exact (error_answer_leaves Sha256.leading answered (by decide +kernel)).1 (by decide +kernel)

/-- A `SET` whose append fails is answered as an error and has been executed. -/
theorem unlogged_set_stays :
    ¬ ∀ (hash : String → Nat) (workerCount : Nat) (positive : 0 < workerCount) (file : List Char)
      (clocks : Nat → Clock ℚ) (events : List RuntimeEvent) (request : CommandRequest) (clock : Clock ℚ)
      (append : LogOutcome), request.Accepted →
      let rt := events.foldl (advance hash) (started hash workerCount positive file clocks)
      let answer := Id.run (rt.dispatchRequest hash clock append request)
      answer.1.kind = .ERROR → rt.SameButDue (clock 0) answer.2 := by
  intro claim
  have known : "w0" ∈ (started Sha256.leading 1 (by decide) [] fun _ => Clock.still 0).router.workerIds := by
    decide +kernel
  obtain ⟨w', hosted, same⟩ := claim Sha256.leading 1 (by decide) [] (fun _ => Clock.still 0) []
    { command := .SET, args := ["k", "v"] } (Clock.still 1) (.unflushed "No space left on device" 0 0)
    rfl (by decide +kernel) "w0" _ (get?_worker _ known)
  have before : ((started Sha256.leading 1 (by decide) [] fun _ => Clock.still 0).workers.get? "w0").map
      (fun w => w.store.data.get? "k") = some none := by decide +kernel
  rw [get?_worker _ known, Option.map_some, Option.some.injEq] at before
  have after : ((Id.run ((started Sha256.leading 1 (by decide) [] fun _ => Clock.still 0).dispatchRequest
      Sha256.leading (Clock.still 1) (.unflushed "No space left on device" 0 0)
      { command := .SET, args := ["k", "v"] })).2.workers.get? "w0").map
        (fun w => w.store.data.get? "k") = some (some "v") := by decide +kernel
  rw [List.foldl_nil] at hosted
  rw [hosted, Option.map_some, Option.some.injEq] at after
  rcases same "k" with ⟨kept, _⟩ | ⟨gone, _⟩
  · rw [after, before] at kept
    cases kept
  · rw [after] at gone
    cases gone

end LiteStoreRuntime
end LiteStore
