import LiteStore.Worker.Answers
import LiteStore.Worker.Pool

/-!
# Whose response is it

The responses of a worker come in the order of the puts, and `execute` takes the
next one without a look at its id. As long as each response is taken by the call
that has waited longest (`FirstCome`), the queue and the waiting calls stay in
step (`InStep`) and every call gets its own response; the first get out of that
order gives a call another's response.
-/

namespace LiteStore.WorkerHandle
set_option autoImplicit false
open Py WorkerProcess

variable {τ : Type} [LinearOrder τ] [Zero τ] [Timestamp τ]
  (m : Type → Type) [PyMonad m] [TimeArith m τ] (str : Dict String String → String)

/-- Runs of a handle. -/
def machine : Machine (WorkerHandle τ) (PoolAction τ) Unit := ⟨fun h a => ((), h.step m str a)⟩

/-- The responses on their way are those of the calls that have waited longest, in order; if
the worker still runs, the others' requests are on its queue. -/
def InStep (h : WorkerHandle τ) : Prop :=
  ∃ rest, h.waiting = h.responseQueue.map WorkerResponse.requestId ++ rest ∧
    ∀ w, h.worker = .running w →
      w.running = true ∧ rest = h.requestQueue.map WorkerRequest.requestId

/-- Every call that has returned has the response under its own id. -/
def OwnResponses (h : WorkerHandle τ) : Prop :=
  ∀ r ∈ h.returned, r.2.requestId = some r.1

/-- A call that takes a response is the one that has waited longest. -/
def FirstCome (h : WorkerHandle τ) : PoolAction τ → Prop
  | .get requestId =>
    h.responseQueue ≠ [] → requestId ∈ h.waiting → h.waiting.head? = some requestId
  | _ => True

instance (h : WorkerHandle τ) (a : PoolAction τ) : Decidable (FirstCome h a) :=
  match a with
  | .get _ => inferInstanceAs (Decidable (_ → _ → _))
  | .put _ => inferInstanceAs (Decidable True)
  | .work .. => inferInstanceAs (Decidable True)

/-! ## The worker's part -/

/-- An iteration of a running worker answers the request it takes or ends the process. -/
theorem work_responses {w : WorkerProcess τ} (running : w.running = true) (message : Option WorkerRequest)
    (clock : Clock τ) (append : LogOutcome) (now : τ) (passClock : Clock τ) :
    let after := WorkerProcess.step m str (.running w)
      ⟨message.map .request, clock, append, now, passClock⟩
    (∃ w', after = .running w' ∧ w'.running = true ∧
      (newResponses (.running w) after).map WorkerResponse.requestId =
        message.toList.map WorkerRequest.requestId) ∨
    (∀ w', after ≠ .running w') ∧
      (newResponses (.running w) after).map WorkerResponse.requestId <+:
        message.toList.map WorkerRequest.requestId := by
  intro after
  set event : WorkerEvent τ := ⟨message.map .request, clock, append, now, passClock⟩ with hevent
  have serves : Serves event := by
    cases message with
    | none => exact Or.inl rfl
    | some msg => exact Or.inr ⟨msg, rfl⟩
  have requests : requestsOf [event] = message.toList := by
    cases message <;> rfl
  -- What the worker's list has beyond the old one, by ids.
  have added {s : WorkerStatus τ}
      (ids : s.responses.map WorkerResponse.requestId =
        w.responses.map WorkerResponse.requestId ++ message.toList.map WorkerRequest.requestId) :
      (newResponses (.running w) s).map WorkerResponse.requestId =
        message.toList.map WorkerRequest.requestId := by
    have length : w.responses.length = (w.responses.map WorkerResponse.requestId).length := by simp
    rw [newResponses, List.map_drop, ids,
      show (WorkerStatus.running w).responses.length = w.responses.length from rfl, length,
      List.drop_left]
  have run : after = WorkerProcess.step m str (.running w) event := rfl
  rw [run, WorkerProcess.step]
  cases handled : w.handleMessage m str event with
  | error e =>
    refine Or.inr ⟨by rintro w' ⟨⟩, ?_⟩
    have none : newResponses (.running w) (.crashed e w.responses) = [] := List.drop_length
    simp only [none, List.map_nil, List.nil_prefix]
  | ok w' =>
    obtain ⟨running', _, _, answers⟩ := handleMessage_ok m str serves handled
    rw [requests] at answers
    simp only
    cases passed : w'.expirePeriodically m event with
    | error e =>
      refine Or.inr ⟨by rintro w'' ⟨⟩, ?_⟩
      simp only [added (s := .crashed e w'.responses) answers, List.prefix_rfl]
    | ok w'' =>
      obtain ⟨_, running'', responses, _⟩ := expirePeriodically_ok m passed
      have alive : w''.running = true := by rw [running'', running', running]
      rw [← responses] at answers
      simp only [alive, if_true]
      exact Or.inl ⟨w'', rfl, alive, added (s := .running w'') answers⟩

omit [Timestamp τ] in
/-- A running worker takes the oldest request or none. -/
theorem take_running {h : WorkerHandle τ} {w : WorkerProcess τ} (running : h.worker = .running w)
    (takes : Bool) : h.requestQueue = (h.take takes).1.toList ++ (h.take takes).2 := by
  unfold take
  rw [running]
  cases takes with
  | false => rfl
  | true => cases h.requestQueue <;> rfl

/-- A process that is gone does nothing. -/
theorem step_gone {s : WorkerStatus τ} (gone : ∀ w, s ≠ .running w) (event : WorkerEvent τ) :
    WorkerProcess.step m str s event = s := by
  cases s with
  | running w => exact absurd rfl (gone w)
  | ended w => rfl
  | crashed e responses => rfl

/-- Every action keeps the calls in step with the queues, but a get out of order. -/
theorem step_inStep {h : WorkerHandle τ} (inStep : InStep h) {a : PoolAction τ} (first : FirstCome h a) :
    InStep (h.step m str a) := by
  obtain ⟨rest, waiting, queued⟩ := inStep
  cases a with
  | put msg =>
    refine ⟨rest ++ [msg.requestId], ?_, ?_⟩
    · simp only [step, waiting, List.append_assoc]
    · intro w running
      obtain ⟨alive, ids⟩ := queued w running
      exact ⟨alive, by simp only [step, ids, List.map_append, List.map_cons, List.map_nil]⟩
  | work takes clock append now passClock =>
    by_cases alive : ∃ w, h.worker = .running w
    · obtain ⟨w, running⟩ := alive
      obtain ⟨live, ids⟩ := queued w running
      rw [take_running running takes, List.map_append] at ids
      have worked := work_responses m str live (h.take takes).1 clock append now passClock
      rw [← running] at worked
      rcases worked with ⟨w', running', live', added⟩ | ⟨gone, added⟩
      · refine ⟨(h.take takes).2.map WorkerRequest.requestId, ?_, ?_⟩
        · simp only [step, waiting, ids, List.map_append, added, List.append_assoc]
        · intro v same
          rw [WorkerStatus.running.inj (same.symm.trans running')]
          exact ⟨live', rfl⟩
      · obtain ⟨lost, split⟩ := added
        refine ⟨lost ++ (h.take takes).2.map WorkerRequest.requestId, ?_, ?_⟩
        · simp only [step, waiting, ids, List.map_append, ← split, List.append_assoc]
        · intro v same
          exact (gone v same).elim
    · have gone : ∀ w, h.worker ≠ .running w := fun w running => alive ⟨w, running⟩
      refine ⟨rest, ?_, ?_⟩
      · simp only [step, step_gone m str gone, newResponses, List.drop_length, List.append_nil, waiting]
      · intro v same
        simp only [step, step_gone m str gone] at same
        exact (gone v same).elim
  | get requestId =>
    simp only [step]
    split
    · rename_i response queue eq
      split
      · rename_i here
        have oldest := first (by simp [eq]) here
        rw [waiting, eq] at oldest
        have own : response.requestId = requestId := by simpa using oldest
        refine ⟨rest, ?_, queued⟩
        simp only [waiting, eq, List.map_cons, List.cons_append, own, List.erase_cons_head]
      · exact ⟨rest, waiting, queued⟩
    · exact ⟨rest, waiting, queued⟩

/-! ## The callers' part -/

/-- Calls that have returned stay returned. -/
theorem step_returned (h : WorkerHandle τ) (a : PoolAction τ) :
    h.returned <+: (h.step m str a).returned := by
  cases a with
  | put msg => exact List.prefix_rfl
  | work takes clock append now passClock => exact List.prefix_rfl
  | get requestId =>
    simp only [step]
    split
    · split
      · exact List.prefix_append _ _
      · exact List.prefix_rfl
    · exact List.prefix_rfl

/-- A call that takes its turn gets its own response. -/
theorem step_own {h : WorkerHandle τ} (inStep : InStep h) (own : OwnResponses h) {a : PoolAction τ}
    (first : FirstCome h a) : OwnResponses (h.step m str a) := by
  obtain ⟨rest, waiting, _⟩ := inStep
  cases a with
  | put msg => exact own
  | work takes clock append now passClock => exact own
  | get requestId =>
    simp only [step]
    split
    · rename_i response queue eq
      split
      · rename_i here
        have oldest := first (by simp [eq]) here
        rw [waiting, eq] at oldest
        have same : response.requestId = requestId := by simpa using oldest
        intro r member
        rcases List.mem_append.mp member with member | member
        · exact own r member
        · rw [List.mem_singleton.mp member]
          exact congrArg some same
      · exact own
    · exact own

/-- A call that takes a response before its turn gets another's. -/
theorem step_foreign {h : WorkerHandle τ} (inStep : InStep h) {a : PoolAction τ}
    (early : ¬ FirstCome h a) : ¬ OwnResponses (h.step m str a) := by
  obtain ⟨rest, waiting, _⟩ := inStep
  cases a with
  | put msg => exact absurd trivial early
  | work takes clock append now passClock => exact absurd trivial early
  | get requestId =>
    simp only [FirstCome, Classical.not_imp] at early
    obtain ⟨nonempty, here, other⟩ := early
    obtain ⟨response, queue, eq⟩ := List.exists_cons_of_ne_nil nonempty
    intro own
    have taken : (requestId, commandResponse response) ∈ (h.step m str (.get requestId)).returned := by
      simp [step, eq, here]
    have same : response.requestId = requestId := Option.some.inj (own _ taken)
    rw [waiting, eq] at other
    simp [same] at other

/-- A run in which a call has another's response keeps it. -/
theorem run_foreign {h : WorkerHandle τ} (foreign : ¬ OwnResponses h) (actions : List (PoolAction τ)) :
    ¬ OwnResponses ((machine m str).after h actions) :=
  (machine m str).invariant (I := fun h => ¬ OwnResponses h) foreign
    (fun h a foreign own => foreign fun r member => own r ((step_returned m str h a).subset member))
    actions

/-- **Whose response is it.** In any run of puts, worker iterations and gets, every call that
returns has the response under its own request id if and only if every response is taken by the
call that has waited longest. -/
theorem own_responses_iff {h : WorkerHandle τ} (inStep : InStep h) (own : OwnResponses h)
    (actions : List (PoolAction τ)) :
    OwnResponses ((machine m str).after h actions) ↔ (machine m str).Along FirstCome h actions := by
  induction actions generalizing h with
  | nil => exact ⟨fun _ => trivial, fun _ => own⟩
  | cons a actions ih =>
    by_cases first : FirstCome h a
    · have next := ih (step_inStep m str inStep first) (step_own m str inStep own first)
      rw [Machine.after_cons]
      exact next.trans ⟨fun rest => ⟨first, rest⟩, And.right⟩
    · refine ⟨fun later => ?_, fun along => absurd along.1 first⟩
      exact (run_foreign m str (step_foreign m str inStep first) actions later).elim

omit [Timestamp τ] in
theorem idle_inStep {w : WorkerProcess τ} (running : w.running = true) : InStep (idle w) := by
  refine ⟨[], rfl, ?_⟩
  rintro v ⟨⟩
  exact ⟨running, rfl⟩

/-- **Responses and callers.** On a worker that waits for its first request, under every order of
puts, iterations and gets, every call of `execute` that returns has the response under its own
request id if and only if every response is taken by the call that has waited longest. -/
theorem pool_own_responses_iff {w : WorkerProcess τ} (running : w.running = true)
    (actions : List (PoolAction τ)) :
    OwnResponses ((machine m str).after (idle w) actions) ↔
      (machine m str).Along FirstCome (idle w) actions :=
  own_responses_iff m str (idle_inStep running) (by rintro r ⟨⟩) actions

/-! ## Two calls on one worker -/

/-- A worker with an empty log that waits for its first request. -/
def freshWorker : WorkerProcess ℚ :=
  WorkerProcess.atLoop (MemoryStore.fresh TimingWheel.default)
    (some (AofPersistence.opened [] .EVERY_N 100)) 0

/-- Two calls put a `SET` and a `GET`, and the worker answers both. -/
def bothAnswered : List (PoolAction ℚ) :=
  [.put ⟨"a", .SET, ["k", "v"], none⟩, .put ⟨"b", .GET, ["k"], none⟩,
   .work true (Clock.still 1) .done 1 (Clock.still 1),
   .work true (Clock.still 2) .done 2 (Clock.still 2)]

theorem calls_in_order_own :
    OwnResponses ((machine Id (fun _ => "")).after (idle freshWorker)
      (bothAnswered ++ [.get "a", .get "b"])) :=
  (pool_own_responses_iff Id (fun _ => "") (w := freshWorker) rfl
    (bothAnswered ++ [.get "a", .get "b"])).mpr (by decide +kernel)

/-- The call that put its request second takes the response of the first. -/
theorem crossed_calls_foreign :
    ¬ ∀ actions : List (PoolAction ℚ),
      OwnResponses ((machine Id (fun _ => "")).after (idle freshWorker) actions) := by
  intro claim
  have own := claim (bothAnswered ++ [.get "b"])
  have taken : ((machine Id (fun _ => "")).after (idle freshWorker)
      (bothAnswered ++ [.get "b"])).returned.map (fun r => (r.1, r.2.requestId)) =
        [("b", some "a")] := by decide +kernel
  obtain ⟨r, member, pair⟩ : ∃ r ∈ ((machine Id (fun _ => "")).after (idle freshWorker)
      (bothAnswered ++ [.get "b"])).returned, (r.1, r.2.requestId) = ("b", some "a") :=
    List.mem_map.mp (taken ▸ List.mem_singleton_self _)
  obtain ⟨caller, response⟩ := Prod.mk.inj pair
  have same := own r member
  rw [caller, response] at same
  exact absurd same (by decide)

end LiteStore.WorkerHandle
