import LiteStore.Worker.Callers

/-!
# The pool as a pipeline

Whatever the order of puts, worker iterations and gets, requests reach the worker in the order of their puts and
responses leave it in the order in which it made them. A call may return another's response, but none is lost and none
is returned twice, and as long as the worker runs, every call that waits has a request or a response on its way.
-/

namespace LiteStore.WorkerHandle
set_option autoImplicit false
open Py WorkerProcess

section Pipeline

variable {τ : Type} [LinearOrder τ] [Zero τ] [Timestamp τ]
  (m : Type → Type) [PyMonad m] [TimeArith m τ] (str : Dict String String → String)

/-! ## What an action moves -/

/-- The request that a call puts. -/
def puts (_ : WorkerHandle τ) : PoolAction τ → List WorkerRequest
  | .put msg => [msg]
  | _ => []

/-- What an iteration meets. -/
def iterations (h : WorkerHandle τ) : PoolAction τ → List (WorkerEvent τ)
  | .work takes clock append now passClock => [⟨(h.take takes).1.map .request, clock, append, now, passClock⟩]
  | _ => []

/-- The request that it takes. -/
def handles (h : WorkerHandle τ) (a : PoolAction τ) : List WorkerRequest := requestsOf (h.iterations a)

/-- The responses that it makes. -/
def answers (h : WorkerHandle τ) (a : PoolAction τ) : List WorkerResponse :=
  newResponses h.worker (h.step m str a).worker

/-- The response that a call takes. -/
def takesResponse (h : WorkerHandle τ) : PoolAction τ → List WorkerResponse
  | .get requestId => if requestId ∈ h.waiting then h.responseQueue.take 1 else []
  | _ => []

/-- The call that returns. -/
def returns (h : WorkerHandle τ) : PoolAction τ → List String
  | .get requestId => if h.responseQueue ≠ [] ∧ requestId ∈ h.waiting then [requestId] else []
  | _ => []

variable (h : WorkerHandle τ) (a : PoolAction τ)

omit [Timestamp τ] in
theorem take_queue (takes : Bool) : h.requestQueue = (h.take takes).1.toList ++ (h.take takes).2 := by
  unfold take
  split
  · rename_i queue
    rw [queue]
    rfl
  · rfl

theorem step_requestQueue : h.requestQueue ++ h.puts a = h.handles a ++ (h.step m str a).requestQueue := by
  cases a with
  | put msg => rfl
  | work takes clock append now passClock =>
    have requests : h.handles (.work takes clock append now passClock) = (h.take takes).1.toList := by
      simp only [handles, iterations]
      cases (h.take takes).1 <;> rfl
    rw [requests]
    exact (List.append_nil _).trans (h.take_queue takes)
  | get requestId =>
    have same : (h.step m str (.get requestId)).requestQueue = h.requestQueue := by
      simp only [step]
      split
      · split <;> rfl
      · rfl
    rw [same]
    exact List.append_nil _

omit [Timestamp τ] in
theorem newResponses_self (s : WorkerStatus τ) : newResponses s s = [] := List.drop_length

theorem step_responseQueue :
    h.responseQueue ++ h.answers m str a = h.takesResponse a ++ (h.step m str a).responseQueue := by
  cases a with
  | put msg => exact congrArg (h.responseQueue ++ ·) (newResponses_self h.worker) |>.trans (List.append_nil _)
  | work takes clock append now passClock => rfl
  | get requestId =>
    unfold answers takesResponse
    simp only [step]
    cases queue : h.responseQueue with
    | nil => simp [newResponses_self, queue]
    | cons response rest =>
      dsimp only
      split
      · simp [newResponses_self]
      · simp [newResponses_self, queue]

/-! ## The responses -/

/-- An iteration keeps the responses before it. -/
theorem step_responses (s : WorkerStatus τ) {event : WorkerEvent τ} (serves : Serves event) :
    s.responses <+: (WorkerProcess.step m str s event).responses := by
  cases s with
  | ended w => exact List.prefix_rfl
  | crashed e responses => exact List.prefix_rfl
  | running w =>
    have handled {w' : WorkerProcess τ} (done : w.handleMessage m str event = .ok w') : w.responses <+: w'.responses := by
      rw [handleMessage] at done
      rcases serves with idle | ⟨msg, request⟩
      · simp only [idle] at done
        cases done
        exact List.prefix_rfl
      · simp only [request] at done
        obtain ⟨_, _, _, _, _, _, _, responses⟩ := handleRequest_ok m done
        rw [responses]
        exact List.prefix_append _ _
    rw [WorkerProcess.step]
    cases done : w.handleMessage m str event with
    | error e => exact List.prefix_rfl
    | ok w' =>
      simp only
      cases passed : w'.expirePeriodically m event with
      | error e => exact handled done
      | ok w'' =>
        obtain ⟨_, _, responses, _⟩ := expirePeriodically_ok m passed
        have kept := handled done
        rw [← responses] at kept
        dsimp only
        split <;> exact kept

omit [Timestamp τ] in
theorem iterations_serve : ∀ event ∈ h.iterations a, Serves event := by
  unfold iterations
  split
  · refine List.forall_mem_singleton.mpr ?_
    rename_i takes clock append now passClock
    cases (h.take takes).1 with
    | none => exact .inl rfl
    | some msg => exact .inr ⟨msg, rfl⟩
  · exact List.forall_mem_nil _

/-- The worker goes by its iterations. -/
theorem step_worker : (h.step m str a).worker = (WorkerProcess.machine m str).after h.worker (h.iterations a) := by
  cases a with
  | put msg => rfl
  | work takes clock append now passClock => rfl
  | get requestId =>
    simp only [step]
    split
    · split <;> rfl
    · rfl

theorem after_responses (s : WorkerStatus τ) {events : List (WorkerEvent τ)} (serve : ∀ event ∈ events, Serves event) :
    s.responses <+: ((WorkerProcess.machine m str).after s events).responses := by
  induction events generalizing s with
  | nil => exact List.prefix_rfl
  | cons event events ih =>
    exact (step_responses m str s (serve event List.mem_cons_self)).trans
      (ih _ fun e member => serve e (List.mem_cons_of_mem _ member))

theorem step_answers : (h.step m str a).worker.responses = h.worker.responses ++ h.answers m str a := by
  have kept := after_responses m str h.worker (h.iterations_serve a)
  rw [← step_worker] at kept
  exact List.prefix_append_drop kept

/-! ## The calls -/

theorem step_calls : (h.step m str a).returned.map Prod.fst = h.returned.map Prod.fst ++ h.returns a ∧
    (h.step m str a).returned.map Prod.snd = h.returned.map Prod.snd ++ (h.takesResponse a).map commandResponse ∧
    (h.returns a ++ (h.step m str a).waiting).Perm (h.waiting ++ (h.puts a).map WorkerRequest.requestId) := by
  cases a with
  | put msg => exact ⟨(List.append_nil _).symm, (List.append_nil _).symm, List.Perm.rfl⟩
  | work takes clock append now passClock =>
    exact ⟨(List.append_nil _).symm, (List.append_nil _).symm, List.Perm.of_eq (List.append_nil _).symm⟩
  | get requestId =>
    unfold returns takesResponse
    simp only [step, puts, List.map_nil, List.append_nil]
    cases queue : h.responseQueue with
    | nil => simp
    | cons response rest =>
      by_cases here : requestId ∈ h.waiting
      · simp only [here, if_true, ne_eq, reduceCtorEq, not_false_eq_true, and_self, List.map_append, List.map_cons,
          List.map_nil, List.take_succ_cons, List.take_zero, true_and]
        exact (List.perm_cons_erase here).symm
      · simp [here]

/-! ## Runs -/

variable {h} (actions : List (PoolAction τ))

theorem run_worker : ((machine m str).after h actions).worker =
      (WorkerProcess.machine m str).after h.worker ((machine m str).collect iterations h actions) ∧
    requestsOf ((machine m str).collect iterations h actions) = (machine m str).collect handles h actions := by
  induction actions generalizing h with
  | nil => exact ⟨rfl, rfl⟩
  | cons a actions ih =>
    obtain ⟨worker, requests⟩ := ih (h := h.step m str a)
    constructor
    · rw [Machine.collect, Machine.after_append, ← step_worker]
      exact worker
    · rw [Machine.collect, Machine.collect, requestsOf, List.filterMap_append]
      exact congrArg (h.handles a ++ ·) requests

/-- A call waits from its put on until it returns. -/
theorem run_calls : ((machine m str).collect returns h actions ++ ((machine m str).after h actions).waiting).Perm
    (h.waiting ++ ((machine m str).collect puts h actions).map WorkerRequest.requestId) := by
  induction actions generalizing h with
  | nil => exact List.Perm.of_eq (List.append_nil _).symm
  | cons a actions ih =>
    have here := (h.step_calls m str a).2.2
    have rest := ih (h := h.step m str a)
    rw [Machine.collect, Machine.collect, List.map_append, List.append_assoc, ← List.append_assoc h.waiting]
    refine (rest.append_left (h.returns a)).trans ?_
    rw [← List.append_assoc]
    exact here.append_right _

/-- A process that is gone handles and answers nothing. -/
theorem run_gone (gone : ∀ w, h.worker ≠ .running w) :
    (machine m str).collect (answers m str) h actions = [] ∧ (machine m str).collect handles h actions = [] ∧
      ∀ w, ((machine m str).after h actions).worker ≠ .running w := by
  induction actions generalizing h with
  | nil => exact ⟨rfl, rfl, gone⟩
  | cons a actions ih =>
    have idle : h.handles a = [] := by
      unfold handles iterations
      split
      · rename_i takes _ _ _ _
        have untaken : (h.take takes).1 = none := by
          unfold take
          cases status : h.worker with
          | running w => exact absurd status (gone w)
          | ended w => rfl
          | crashed e responses => rfl
        rw [untaken]
        rfl
      · rfl
    have same : (h.step m str a).worker = h.worker := by
      rw [step_worker]
      unfold iterations
      split
      · exact step_gone m str gone _
      · rfl
    obtain ⟨none, none', gone'⟩ := ih (h := h.step m str a) (same ▸ gone)
    refine ⟨?_, ?_, gone'⟩
    · rw [Machine.collect, answers, same, newResponses_self]
      exact none
    · rw [Machine.collect, idle]
      exact none'

/-- Every request that a worker handles is answered under its id, but perhaps for the one that ends the process. -/
theorem run_answers {w : WorkerProcess τ} (runs : h.worker = .running w) (running : w.running = true) :
    (∃ w', ((machine m str).after h actions).worker = .running w' ∧
      ((machine m str).collect (answers m str) h actions).map WorkerResponse.requestId =
        ((machine m str).collect handles h actions).map WorkerRequest.requestId) ∨
    (∀ w', ((machine m str).after h actions).worker ≠ .running w') ∧
      ((machine m str).collect (answers m str) h actions).map WorkerResponse.requestId <+:
        ((machine m str).collect handles h actions).map WorkerRequest.requestId := by
  induction actions generalizing h w with
  | nil => exact .inl ⟨w, runs, rfl⟩
  | cons a actions ih =>
    have step : (∃ w', (h.step m str a).worker = .running w' ∧ w'.running = true ∧
          (h.answers m str a).map WorkerResponse.requestId = (h.handles a).map WorkerRequest.requestId) ∨
        (∀ w', (h.step m str a).worker ≠ .running w') ∧
          (h.answers m str a).map WorkerResponse.requestId <+: (h.handles a).map WorkerRequest.requestId := by
      cases a with
      | work takes clock append now passClock =>
        have worked := work_responses m str running (h.take takes).1 clock append now passClock
        rw [← runs] at worked
        have requests : h.handles (.work takes clock append now passClock) = (h.take takes).1.toList := by
          simp only [handles, iterations]
          cases (h.take takes).1 <;> rfl
        rw [requests]
        exact worked
      | put msg => exact .inl ⟨w, runs, running, congrArg _ (newResponses_self _)⟩
      | get requestId =>
        have same : (h.step m str (.get requestId)).worker = h.worker := step_worker ..
        refine .inl ⟨w, same.trans runs, running, ?_⟩
        rw [answers, same, newResponses_self]
        rfl
    rw [Machine.collect, Machine.collect, List.map_append, List.map_append]
    rcases step with ⟨w', runs', running', ids⟩ | ⟨gone, ids⟩
    · rw [ids]
      rcases ih (h := h.step m str a) runs' running' with ⟨w'', last, same⟩ | ⟨gone, same⟩
      · exact .inl ⟨w'', last, congrArg _ same⟩
      · exact .inr ⟨gone, (List.prefix_append_right_inj _).mpr same⟩
    · obtain ⟨none, none', gone'⟩ := run_gone m str actions gone
      refine .inr ⟨gone', ?_⟩
      have none : (machine m str).collect (answers m str) ((machine m str).step h a).2 actions = [] := none
      have none' : (machine m str).collect handles ((machine m str).step h a).2 actions = [] := none'
      rw [none, none', List.map_nil, List.map_nil, List.append_nil, List.append_nil]
      exact ids

/-- **The pool is a pipeline.** Under every order of puts, iterations and gets: the worker handles the requests in the
order of their puts, and those that it has not taken are on its queue; its responses are those that calls have taken
and then those on the queue, in the order in which it made them, each under the id of its request; a call waits
exactly from its put to its return. While the worker runs, there are as many calls that wait as requests and responses
on the queues. -/
theorem pool_pipeline {w : WorkerProcess τ} (running : w.running = true) :
    let h := (machine m str).after (idle w) actions
    let put := (machine m str).collect puts (idle w) actions
    let events := (machine m str).collect iterations (idle w) actions
    h.worker = (WorkerProcess.machine m str).after (.running w) events ∧
      put = requestsOf events ++ h.requestQueue ∧
      ∃ taken, h.worker.responses = w.responses ++ (taken ++ h.responseQueue) ∧
        h.returned.map Prod.snd = taken.map commandResponse ∧
        (h.returned.map Prod.fst ++ h.waiting).Perm (put.map WorkerRequest.requestId) ∧
        (taken ++ h.responseQueue).map WorkerResponse.requestId <+:
          (requestsOf events).map WorkerRequest.requestId ∧
        ∀ w', h.worker = .running w' → (taken ++ h.responseQueue).length = (requestsOf events).length ∧
          h.waiting.length = h.requestQueue.length + h.responseQueue.length := by
  intro h put events
  obtain ⟨worker, requests⟩ := run_worker m str (h := idle w) actions
  have queued : put = (machine m str).collect handles (idle w) actions ++ h.requestQueue :=
    (machine m str).fifo (fun h a => h.step_requestQueue m str a) (idle w) actions
  have moved : (machine m str).collect (answers m str) (idle w) actions =
      (machine m str).collect takesResponse (idle w) actions ++ h.responseQueue :=
    (machine m str).fifo (fun h a => h.step_responseQueue m str a) (idle w) actions
  have made : h.worker.responses = w.responses ++ (machine m str).collect (answers m str) (idle w) actions :=
    (machine m str).accumulates (f := fun h => h.worker.responses) (fun h a => h.step_answers m str a) (idle w) actions
  have callers : h.returned.map Prod.fst = (machine m str).collect returns (idle w) actions :=
    (machine m str).accumulates (f := fun h => h.returned.map Prod.fst) (fun h a => (h.step_calls m str a).1)
      (idle w) actions
  have returned : h.returned.map Prod.snd =
      ((machine m str).collect takesResponse (idle w) actions).map commandResponse := by
    rw [Machine.collect_map]
    exact (machine m str).accumulates (f := fun h => h.returned.map Prod.snd)
      (fun h a => (h.step_calls m str a).2.1) (idle w) actions
  have calls : (h.returned.map Prod.fst ++ h.waiting).Perm (put.map WorkerRequest.requestId) := by
    rw [callers]
    exact run_calls m str actions
  have moved : (machine m str).collect (answers m str) (idle w) actions =
      (machine m str).collect takesResponse (idle w) actions ++ h.responseQueue := moved
  refine ⟨worker, requests ▸ queued, _, made.trans (congrArg _ moved), returned, calls, ?_⟩
  rw [← moved, requests]
  rcases run_answers m str actions (h := idle w) rfl running with ⟨_, _, ids⟩ | ⟨gone, ids⟩
  · refine ⟨ids ▸ List.prefix_rfl, fun _ _ => ?_⟩
    have answered := congrArg List.length ids
    have sent := congrArg List.length queued
    have made := congrArg List.length moved
    have called := calls.length_eq
    have paired := congrArg List.length returned
    simp only [List.length_append, List.length_map] at answered sent made called paired
    exact ⟨answered, by omega⟩
  · exact ⟨ids, fun w' runs => absurd runs (gone w')⟩

/-- `b` has taken the response of `a`; that of `b` is on its way, and `a` waits. -/
theorem crossed_calls_pipeline :
    let h := (machine Id (fun _ => "")).after (idle freshWorker) (bothAnswered ++ [.get "b"])
    h.returned.map Prod.fst = ["b"] ∧ h.waiting = ["a"] ∧ h.responseQueue.map WorkerResponse.requestId = ["b"] ∧
      (h.returned.map Prod.fst ++ h.waiting).Perm ["a", "b"] := by
  intro h
  obtain ⟨_, _, _, _, _, calls, _⟩ :=
    pool_pipeline Id (fun _ => "") (bothAnswered ++ [.get "b"]) (w := freshWorker) rfl
  exact ⟨by decide +kernel, by decide +kernel, by decide +kernel, calls⟩

end Pipeline
end LiteStore.WorkerHandle
