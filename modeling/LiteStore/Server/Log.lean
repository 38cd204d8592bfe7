import LiteStore.Server.Serial

/-!
# What a run logs

While writes and flushes go through, a run of the server adds whole records to a log of whole records:
those of requests that its jobs have dispatched. A record whose `fsync` raises is there too, though its
client is told of an error.
-/

namespace LiteStore
set_option autoImplicit false
open Py

/-- The write and the flush go through, whatever comes of an `os.fsync`. -/
def LogOutcome.Flushes (outcome : LogOutcome) : Prop := ∃ fsync, outcome = .flushed fsync

theorem LogOutcome.flushes_done : LogOutcome.done.Flushes := ⟨.ok (), rfl⟩

/-- An append of the job, if it comes to one, is written and flushed. -/
def Job.Flushes (job : Job) : Prop := ∀ append, job.outcome = some append → append.Flushes

namespace LiteStoreRuntime

variable {rt : LiteStoreRuntime ℚ} {records : List PersistRecord}

/-- The record of a write is added to the log. -/
theorem logResponse_holds (h : rt.persistence.Holds records) {append : LogOutcome} (flushes : append.Flushes)
    (request : CommandRequest) (response : CommandResponse) :
    (rt.logResponse append request response).2.persistence.Holds
      (records ++ if isPersistedWrite request response then [⟨rt.persistence.nextSequence, request⟩] else []) := by
  cases write : isPersistedWrite request response with
  | false =>
    rw [logResponse_read write]
    simpa using h
  | true =>
    obtain ⟨fsync, rfl⟩ := flushes
    have grown := h.appendRequest request fsync
    unfold logResponse
    simp only [write, if_true]
    generalize rt.persistence.appendRequest request (.flushed fsync) = appended at grown ⊢
    rcases appended with ⟨text | record, log⟩ <;> exact grown

end LiteStoreRuntime

namespace Backend

variable {hash : String → Nat} {rowHash : Nat → String → Nat} {b : Backend} {records : List PersistRecord}

variable (hash) in
/-- **What a job logs**: the record of its request, if that is executed as a write. -/
theorem step_log (counts : ∃ observed, b.Counted rowHash observed) (holds : b.runtime.persistence.Holds records)
    {job : Job} (flushes : job.Flushes) :
    job.request = none ∧ ((serial hash rowHash).step b job).2.runtime.persistence.Holds records ∨
      ∃ request clock, job.request = some request ∧
        ((serial hash rowHash).step b job).2.runtime.persistence.Holds (records ++
          if isPersistedWrite request (Id.run (b.runtime.executeRouted hash clock request)).1 then
            [⟨b.runtime.persistence.nextSequence, request⟩]
          else []) := by
  obtain ⟨observed, counted⟩ := counts
  rcases step_runtime hash counted job with ⟨clocks, refused, left⟩ | ⟨refused, left⟩ |
    ⟨request, clock, append, accepted, outcome, _, left⟩ <;> rw [left]
  · refine .inl ⟨refused, ?_⟩
    rwa [b.runtime.refresh_persistence]
  · exact .inl ⟨refused, holds⟩
  · refine .inr ⟨request, clock, accepted, ?_⟩
    have log := (LiteStoreRuntime.executeRouted_frame hash b.runtime clock request).2
    rw [LiteStoreRuntime.dispatchRequest_log, ← log]
    rw [← log] at holds
    exact LiteStoreRuntime.logResponse_holds holds (flushes append outcome) request _

variable (hash) in
/-- **What a run logs**: records of requests that were executed as writes. -/
theorem after_records (counts : ∃ observed, b.Counted rowHash observed)
    (holds : b.runtime.persistence.Holds records) {jobs : List Job} (flushes : ∀ job ∈ jobs, job.Flushes) :
    ∃ more, ((serial hash rowHash).after b jobs).runtime.persistence.Holds (records ++ more) ∧
      ∀ r ∈ more, ∃ job ∈ jobs, ∃ response,
        job.request = some r.request ∧ isPersistedWrite r.request response = true := by
  induction jobs generalizing b records with
  | nil => exact ⟨[], by simpa using holds, List.forall_mem_nil _⟩
  | cons job jobs ih =>
    obtain ⟨first, grown, each⟩ : ∃ first, ((serial hash rowHash).step b job).2.runtime.persistence.Holds
        (records ++ first) ∧ ∀ r ∈ first, ∃ response,
          job.request = some r.request ∧ isPersistedWrite r.request response = true := by
      rcases step_log hash counts holds (flushes job List.mem_cons_self) with ⟨_, same⟩ | ⟨request, clock, accepted, log⟩
      · exact ⟨[], by simpa using same, List.forall_mem_nil _⟩
      · refine ⟨_, log, fun r m => ?_⟩
        split at m
        · rename_i write
          rw [List.mem_singleton.mp m]
          exact ⟨_, accepted, write⟩
        · cases m
    obtain ⟨observed, counted⟩ := counts
    obtain ⟨rest, whole, others⟩ := ih (counted.step job) grown fun j m => flushes j (List.mem_cons_of_mem _ m)
    refine ⟨first ++ rest, by rwa [← List.append_assoc], fun r m => ?_⟩
    rcases List.mem_append.mp m with here | later
    · exact ⟨job, List.mem_cons_self, each r here⟩
    · obtain ⟨j, there, logged⟩ := others r later
      exact ⟨j, List.mem_cons_of_mem _ there, logged⟩

end Backend

namespace Server
open Backend

variable {hash : String → Nat} {rowHash : Nat → String → Nat} {s : Server}

/-- The outcome of an append in a round, if it comes to one. -/
def outcome : ServerEvent → Option LogOutcome
  | .round _ _ append _ => some append
  | _ => none

/-- The jobs of a round. -/
theorem round_jobs {i : Nat} {c : Connection} {clock : Clock ℚ} {append : LogOutcome} {durationSeconds : ℚ}
    {job : Job} (m : job ∈ (s.round hash rowHash i c clock append durationSeconds).1) :
    ∃ raw requestId, job = .line i raw c.connectionId requestId clock append durationSeconds := by
  unfold Server.round at m
  split at m
  · cases m
  · split at m
    · cases m
    · cases m
    · cases m
    · exact ⟨_, _, List.mem_singleton.mp m⟩

/-- The outcome of a job is that of an event. -/
theorem jobs_outcome {events : List ServerEvent} {job : Job} (m : job ∈ s.jobs hash rowHash events)
    {append : LogOutcome} (made : job.outcome = some append) : ∃ event ∈ events, outcome event = some append := by
  induction events generalizing s with
  | nil => cases m
  | cons event events ih =>
    rcases List.mem_append.mp m with here | later
    · refine ⟨event, List.mem_cons_self, ?_⟩
      cases event with
      | round j clock append' durationSeconds =>
        simp only [machine] at here
        split at here
        · cases here
        · split at here
          · obtain ⟨raw, requestId, rfl⟩ := round_jobs here
            exact made
          · cases here
      | refresh clocks =>
        rw [List.mem_singleton.mp here] at made
        cases made
      | _ => cases here
    · obtain ⟨e, there, same⟩ := ih later
      exact ⟨e, List.mem_cons_of_mem _ there, same⟩

/-- Every append in the event is written and flushed. -/
def Flushes (event : ServerEvent) : Prop := ∀ append, outcome event = some append → append.Flushes

theorem jobs_flush {events : List ServerEvent} (flushes : ∀ event ∈ events, Flushes event) :
    ∀ job ∈ s.jobs hash rowHash events, job.Flushes := by
  intro job m append made
  obtain ⟨event, there, same⟩ := jobs_outcome m made
  exact flushes event there append same

theorem started_persistence (workerCount : Nat) (positive : 0 < workerCount) (file : List Char)
    (clocks snapshotClocks : Nat → Clock ℚ) :
    (started hash workerCount positive file clocks snapshotClocks).backend.runtime.persistence =
      AofPersistence.opened file .EVERY_N 100 := by
  set rt : LiteStoreRuntime ℚ := LiteStoreRuntime.create workerCount positive file
  have replayed := LiteStoreRuntime.replay_persistence hash rt clocks rt.persistence.replay
  have log := (LiteStoreRuntime.started hash workerCount positive file clocks).refresh_persistence snapshotClocks
    Dict.empty (LiteStoreRuntime.started hash workerCount positive file clocks).workers.keys
  exact log.trans replayed

end Server
end LiteStore
