import LiteStore.Metrics.Histogram
import LiteStore.Server.Model

/-!
# The handlers and one serial execution

Whatever the order of the server's steps, its jobs explain all that its connections see. The shared
state is the one that a serial execution of the jobs reaches; the jobs of a connection are the lines
of the bytes that came to it, in their order and cut where the line feeds are, not where the pieces
end; and what is written to it is the answers of the serial execution to its lines.
-/

namespace LiteStore
set_option autoImplicit false
open Py

/-! ## Jobs -/

/-- The request of a line that is accepted. -/
def Job.request : Job → Option CommandRequest
  | .line _ raw connectionId requestId _ _ _ =>
    (parseCommand (String.ofList (decode raw)) (some requestId) (some connectionId)).toOption
  | .refresh _ => none

/-- The outcome of the append of a line, if it comes to one. -/
def Job.outcome : Job → Option LogOutcome
  | .line _ _ _ _ _ append _ => some append
  | .refresh _ => none

namespace Backend

variable (hash : String → Nat) (rowHash : Nat → String → Nat)

/-- The lines of a connection. -/
def linesOf (i : Nat) (jobs : List Job) : List (List UInt8) :=
  jobs.filterMap fun job =>
    match job with
    | .line j raw _ _ _ _ _ => if j = i then some raw else none
    | .refresh _ => none

/-- The answer to a job, if it is a line of the connection. -/
def replyTo (i : Nat) (b : Backend) (job : Job) : List CommandResponse :=
  match job with
  | .line j _ _ _ _ _ _ => if j = i then ((serial hash rowHash).step b job).1.toList else []
  | .refresh _ => []

/-- The answers to the lines of a connection in a serial execution. -/
def repliesTo (i : Nat) (b : Backend) (jobs : List Job) : List CommandResponse :=
  (serial hash rowHash).collect (replyTo hash rowHash i) b jobs

/-- The requests among the jobs, as the metrics observe them. -/
def observations (jobs : List Job) : List Observation :=
  jobs.filterMap fun job =>
    match job with
    | .line _ raw connectionId requestId _ _ durationSeconds =>
      match parseCommand (String.ofList (decode raw)) (some requestId) (some connectionId) with
      | .error _ => none
      | .ok request => some ⟨request, durationSeconds⟩
    | .refresh _ => none

/-- But for the memory, which a refresh replaces, the metrics are those of these observations. -/
def Counted (observed : List Observation) (b : Backend) : Prop :=
  ∃ c, MetricsCollector.init.observeAll rowHash observed = some c ∧
    b.metrics = { c with memoryByPrefixBytes := b.metrics.memoryByPrefixBytes }

variable {hash rowHash} {b : Backend} {observed : List Observation}

theorem linesOf_append (i : Nat) (jobs more : List Job) :
    linesOf i (jobs ++ more) = linesOf i jobs ++ linesOf i more := List.filterMap_append

theorem repliesTo_append (i : Nat) (jobs more : List Job) :
    repliesTo hash rowHash i b (jobs ++ more) =
      repliesTo hash rowHash i b jobs ++ repliesTo hash rowHash i ((serial hash rowHash).after b jobs) more :=
  Machine.collect_append _ _ _ _ _

theorem observations_append (jobs more : List Job) :
    observations (jobs ++ more) = observations jobs ++ observations more := List.filterMap_append

/-- `observe_command` neither reads nor writes the memory. -/
theorem observeCommand_memory (c : MetricsCollector) (o : Observation) (memory : Dict String Nat) :
    { c with memoryByPrefixBytes := memory }.observeCommand rowHash o =
      (c.observeCommand rowHash o).map fun c => { c with memoryByPrefixBytes := memory } := by
  cases args : o.request.args with
  | nil => simp only [MetricsCollector.observeCommand, MetricsCollector.observeLatencyBucket, args, Option.map_some]
  | cons key rest =>
    simp only [MetricsCollector.observeCommand, MetricsCollector.observeLatencyBucket, args, Option.map_map]
    rfl

/-- An observation succeeds. -/
theorem Counted.observe (h : b.Counted rowHash observed) (o : Observation) :
    ∃ metrics, b.metrics.observeCommand rowHash o = some metrics ∧
      ∀ runtime, Counted rowHash (observed ++ [o]) ⟨runtime, metrics⟩ := by
  obtain ⟨c, done, same⟩ := h
  obtain ⟨c', done', _⟩ := MetricsCollector.observeAll_covers rowHash (observed ++ [o])
  have next : c.observeCommand rowHash o = some c' := by
    have split := done'
    rw [MetricsCollector.observeAll, List.foldlM_append] at split
    rw [MetricsCollector.observeAll] at done
    simpa [done] using split
  refine ⟨{ c' with memoryByPrefixBytes := b.metrics.memoryByPrefixBytes }, ?_, fun _ => ⟨c', done', rfl⟩⟩
  rw [same, observeCommand_memory, next]
  rfl

theorem Counted.refreshMetricsSnapshot (h : b.Counted rowHash observed) (clocks : Nat → Clock ℚ) :
    (b.refreshMetricsSnapshot clocks).Counted rowHash observed := by
  obtain ⟨c, done, same⟩ := h
  refine ⟨c, done, ?_⟩
  simp only [Backend.refreshMetricsSnapshot, MetricsCollector.observeStoreSnapshot]
  rw [same]

variable (hash) in
/-- A dispatched request gets an answer of one of the sent forms, with its id. -/
theorem dispatchRequest_sent (rt : LiteStoreRuntime ℚ) (clock : Clock ℚ) (append : LogOutcome)
    (request : CommandRequest) :
    let r := Id.run (rt.dispatchRequest hash clock append request)
    Sent r.1 ∧ r.1.requestId = request.requestId := by
  obtain ⟨w, passed, r, _, _, answered, run⟩ :=
    LiteStoreRuntime.executeRouted_ok hash (outcome_exact (rt.executeRouted hash clock request))
  obtain ⟨answer, _⟩ := executeCommand_harmless answered
  have logged := LiteStoreRuntime.logResponse_cases (Id.run (rt.executeRouted hash clock request)).2 append request
    (Id.run (rt.executeRouted hash clock request)).1
  intro dispatched
  simp only [dispatched, LiteStoreRuntime.dispatchRequest_log, run] at logged ⊢
  rcases logged with same | ⟨text, _, failed⟩
  · rw [same]
    exact ⟨answer.sent, answer.requestId_eq⟩
  · rw [failed]
    exact ⟨.error .PERSISTENCE_ERROR _ request.requestId, rfl⟩

variable (hash) in
/-- **One line** is answered, with its id, and counted if it is accepted. -/
theorem Counted.line (h : b.Counted rowHash observed) (i : Nat) (raw : List UInt8)
    (connectionId requestId : String) (clock : Clock ℚ) (append : LogOutcome) (durationSeconds : ℚ) :
    let job := Job.line i raw connectionId requestId clock append durationSeconds
    ∃ response, ((serial hash rowHash).step b job).1 = some response ∧ Sent response ∧
      response.requestId = some requestId ∧
      ((serial hash rowHash).step b job).2.Counted rowHash (observed ++ observations [job]) := by
  intro job
  have step : (serial hash rowHash).step b job =
    b.processCommandBytes hash rowHash clock append durationSeconds raw connectionId requestId := rfl
  rw [step, processCommandBytes]
  cases parsed : parseCommand (String.ofList (decode raw)) (some requestId) (some connectionId) with
  | error exc =>
    have none : observations [job] = [] := by simp [observations, job, parsed]
    rw [none, List.append_nil]
    exact ⟨_, rfl, .error exc.code exc.message (some requestId), rfl, h⟩
  | ok request =>
    obtain ⟨metrics, observes, counted⟩ := h.observe ⟨request, durationSeconds⟩
    have one : observations [job] = [⟨request, durationSeconds⟩] := by simp [observations, job, parsed]
    have named : request.requestId = some requestId := by
      have outcome := parseCommand_parsed (String.ofList (decode raw)) (some requestId) (some connectionId)
      rw [parsed] at outcome
      cases outcome
      rfl
    obtain ⟨sent, same⟩ := dispatchRequest_sent hash b.runtime clock append request
    simp only [observes, one]
    exact ⟨_, rfl, sent, same.trans named, counted _⟩

variable (hash) in
/-- All that a job does to the runtime: it refreshes the metrics, or is refused, or dispatches its request. -/
theorem step_runtime (h : b.Counted rowHash observed) (job : Job) :
    let r := (serial hash rowHash).step b job
    (∃ clocks, job.request = none ∧
      r.2.runtime = (Id.run (b.runtime.refreshMetricsSnapshot clocks Dict.empty b.runtime.workers.keys)).2) ∨
    (job.request = none ∧ r.2.runtime = b.runtime) ∨
    ∃ request clock append, job.request = some request ∧ job.outcome = some append ∧
      r.1 = some (Id.run (b.runtime.dispatchRequest hash clock append request)).1 ∧
      r.2.runtime = (Id.run (b.runtime.dispatchRequest hash clock append request)).2 := by
  cases job with
  | refresh clocks => exact .inl ⟨clocks, rfl, rfl⟩
  | line i raw connectionId requestId clock append durationSeconds =>
    have step : (serial hash rowHash).step b (.line i raw connectionId requestId clock append durationSeconds) =
      b.processCommandBytes hash rowHash clock append durationSeconds raw connectionId requestId := rfl
    rw [step, processCommandBytes, Job.request]
    cases parsed : parseCommand (String.ofList (decode raw)) (some requestId) (some connectionId) with
    | error exc => exact .inr (.inl ⟨rfl, rfl⟩)
    | ok request =>
      obtain ⟨metrics, observes, _⟩ := h.observe ⟨request, durationSeconds⟩
      simp only [observes]
      exact .inr (.inr ⟨request, clock, append, rfl, rfl, rfl, rfl⟩)

theorem Counted.step (h : b.Counted rowHash observed) (job : Job) :
    ∃ observed', ((serial hash rowHash).step b job).2.Counted rowHash observed' := by
  cases job with
  | refresh clocks => exact ⟨_, h.refreshMetricsSnapshot clocks⟩
  | line i raw connectionId requestId clock append durationSeconds =>
    obtain ⟨_, _, _, _, counted⟩ :=
      h.line hash i raw connectionId requestId clock append durationSeconds
    exact ⟨_, counted⟩

end Backend

/-! ## One connection -/

/-- What the handler has left of the bytes that came: it has them before it, or has read them to their
end, or gave up, because the connection was lost, because a line was too long or because the last answer
has no text. -/
def Connection.Left (c : Connection) (replies : List CommandResponse) (rest : List UInt8) : Prop :=
  match c.handler with
  | .running => rest = c.reader.buffer
  | .finished => c.reader.eof = true ∧ rest = []
  | .failed => c.lost = true ∨ LineReader.Overlong 10 readLimit rest ∨
      ∃ last, replies.getLast? = some last ∧ ¬ last.Writable

/-- A connection to which these bytes came and that had these lines answered. -/
structure Connection.Explained (c : Connection) (arrived : List UInt8) (lines : List (List UInt8))
    (replies : List CommandResponse) : Prop where
  read : ∃ rest, LineReader.Reads 10 c.reader.eof lines rest arrived ∧ c.Left replies rest
  index : c.requestIndex = lines.length
  ids : replies.map (·.requestId) =
    (List.range lines.length).map fun k => some (requestIdOf c.connectionId (k + 1))
  sent : ∀ response ∈ replies, Sent response
  /-- Only the last answer may be missing, on a connection that was lost or because it has no text. -/
  wrote : ∃ told text, LiteStoreRuntime.transcript told = .ok text ∧ c.written = encode text ∧
    (told = replies ∨ c.handler = .failed ∧ ∃ last, replies = told ++ [last] ∧ (c.lost = true ∨ ¬ last.Writable))

section Steps

variable {c : Connection} {arrived : List UInt8} {lines : List (List UInt8)} {replies : List CommandResponse}

theorem opened_explained (connectionId : String) : (Connection.opened connectionId).Explained [] [] [] where
  read := ⟨[], LineReader.reads_fresh, rfl⟩
  index := rfl
  ids := rfl
  sent := List.forall_mem_nil _
  wrote := ⟨[], [], rfl, rfl, .inl rfl⟩

theorem Connection.Explained.length_replies (h : c.Explained arrived lines replies) :
    replies.length = lines.length := by
  have counts := congrArg List.length h.ids
  rwa [List.length_map, List.length_map, List.length_range] at counts

/-- Where a handler runs, every answer is written. -/
theorem Connection.Explained.wrote_all (h : c.Explained arrived lines replies) (running : c.handler = .running) :
    ∃ text, LiteStoreRuntime.transcript replies = .ok text ∧ c.written = encode text := by
  obtain ⟨told, text, written, bytes, rfl | ⟨failed, _⟩⟩ := h.wrote
  · exact ⟨text, written, bytes⟩
  · rw [running] at failed
    cases failed

theorem Connection.Explained.read_all (h : c.Explained arrived lines replies) (running : c.handler = .running) :
    LineReader.Reads 10 c.reader.eof lines c.reader.buffer arrived := by
  obtain ⟨rest, reads, left⟩ := h.read
  rw [Left, running] at left
  exact left ▸ reads

theorem Connection.listens_iff : c.listens = true ↔ c.handler = .running ∧ c.reader.eof = false := by
  simp [Connection.listens]

theorem Connection.Explained.dataReceived (h : c.Explained arrived lines replies) (data : List UInt8) :
    (c.dataReceived data).Explained (arrived ++ if c.listens then data else []) lines replies := by
  unfold Connection.dataReceived
  cases listens : c.listens with
  | false =>
    simp only [Bool.false_eq_true, if_false, List.append_nil]
    exact h
  | true =>
    obtain ⟨running, more⟩ := Connection.listens_iff.mp listens
    have reads := h.read_all running
    rw [more] at reads
    simp only [if_true]
    refine { h with read := ⟨(c.reader.feed data).buffer, ?_, ?_⟩ }
    · show LineReader.Reads 10 c.reader.eof lines (c.reader.buffer ++ data) (arrived ++ data)
      rw [more]
      exact reads.feed data
    · show Connection.Left { c with reader := c.reader.feed data } _ _
      rw [Connection.Left, running]

theorem Connection.Explained.eofReceived (h : c.Explained arrived lines replies) :
    c.eofReceived.Explained arrived lines replies := by
  unfold Connection.eofReceived
  split
  · rename_i running
    refine { h with read := ⟨c.reader.buffer, (h.read_all running).feedEof, ?_⟩ }
    rw [Connection.Left, running]
    rfl
  · exact h

theorem Connection.Explained.connectionLost (h : c.Explained arrived lines replies) (exc : Bool) :
    (c.connectionLost exc).Explained arrived lines replies := by
  unfold Connection.connectionLost
  split
  · rename_i running
    have reads := h.read_all running
    obtain ⟨text, written, bytes⟩ := h.wrote_all running
    cases exc with
    | true => exact { h with read := ⟨_, reads, .inl rfl⟩, wrote := ⟨_, text, written, bytes, .inl rfl⟩ }
    | false =>
      refine { h with read := ⟨_, reads.feedEof, ?_⟩, wrote := ⟨_, text, written, bytes, .inl rfl⟩ }
      show Connection.Left { c with lost := true, reader := c.reader.feedEof } _ c.reader.buffer
      rw [Connection.Left, running]
      rfl
  · exact h

/-- The handler ends behind the last byte. -/
theorem Connection.Explained.finish (h : c.Explained arrived lines replies) (running : c.handler = .running)
    (reader : LineReader UInt8) (ended : reader.eof = true) (same : c.reader.eof = true)
    (empty : c.reader.buffer = []) :
    Connection.Explained { c with reader, handler := .finished } arrived lines replies := by
  have reads := h.read_all running
  obtain ⟨text, written, bytes⟩ := h.wrote_all running
  rw [empty, same] at reads
  refine { h with read := ⟨[], ?_, ended, rfl⟩, wrote := ⟨_, text, written, bytes, .inl rfl⟩ }
  show LineReader.Reads 10 reader.eof lines [] arrived
  rwa [ended]

/-- The handler gives up on a line that is too long. -/
theorem Connection.Explained.overrun (h : c.Explained arrived lines replies) (running : c.handler = .running)
    {reader : LineReader UInt8} (same : reader.eof = c.reader.eof)
    (long : LineReader.Overlong 10 readLimit c.reader.buffer) :
    Connection.Explained { c with reader, handler := .failed } arrived lines replies := by
  obtain ⟨text, written, bytes⟩ := h.wrote_all running
  refine { h with read := ⟨c.reader.buffer, ?_, .inr (.inl long)⟩, wrote := ⟨_, text, written, bytes, .inl rfl⟩ }
  show LineReader.Reads 10 reader.eof lines c.reader.buffer arrived
  exact same ▸ h.read_all running

theorem transcript_append {replies : List CommandResponse} {text : List Char}
    (written : LiteStoreRuntime.transcript replies = .ok text) {response : CommandResponse} {last : String}
    (serialized : serializeResponse response = .ok last) :
    LiteStoreRuntime.transcript (replies ++ [response]) = .ok (text ++ last.toList) := by
  induction replies generalizing text with
  | nil =>
    cases written
    rw [List.nil_append, LiteStoreRuntime.transcript, serialized]
    exact congrArg Except.ok (List.append_nil _)
  | cons first replies ih =>
    rw [LiteStoreRuntime.transcript] at written
    cases begun : serializeResponse first with
    | error exc =>
      rw [begun] at written
      cases written
    | ok begin =>
      cases rest : LiteStoreRuntime.transcript replies with
      | error exc =>
        rw [begun, rest] at written
        cases written
      | ok others =>
        rw [begun, rest] at written
        cases written
        rw [List.cons_append, LiteStoreRuntime.transcript, begun, ih rest]
        exact congrArg Except.ok (List.append_assoc _ _ _).symm

/-- **One line** is read and answered, unless the answer has no text. -/
theorem Connection.Explained.answer (h : c.Explained arrived lines replies) (running : c.handler = .running)
    {reader : LineReader UInt8} {raw : List UInt8}
    (reads : LineReader.Reads 10 reader.eof (lines ++ [raw]) reader.buffer arrived)
    {response : CommandResponse} (sent : Sent response)
    (named : response.requestId = some (requestIdOf c.connectionId (c.requestIndex + 1))) :
    (Connection.reply { c with requestIndex := c.requestIndex + 1, reader } (some response)).Explained arrived
      (lines ++ [raw]) (replies ++ [response]) := by
  obtain ⟨text, written, bytes⟩ := h.wrote_all running
  have index : c.requestIndex + 1 = (lines ++ [raw]).length := by
    rw [h.index, List.length_append, List.length_singleton]
  have ids : (replies ++ [response]).map (·.requestId) =
      (List.range (lines ++ [raw]).length).map fun k => some (requestIdOf c.connectionId (k + 1)) := by
    rw [List.map_append, h.ids, List.map_singleton, named, List.length_append, List.length_singleton,
      List.range_succ, List.map_append, List.map_singleton, h.index]
  have each : ∀ r ∈ replies ++ [response], Sent r := by
    intro r m
    rcases List.mem_append.mp m with before | here
    · exact h.sent r before
    · exact List.mem_singleton.mp here ▸ sent
  by_cases short : response.Writable
  · obtain ⟨last, serialized, _⟩ := serializeResponse_lines sent short
    simp only [Connection.reply, serialized]
    split
    · rename_i lost
      exact { read := ⟨_, reads, .inl lost⟩, index, ids, sent := each,
              wrote := ⟨replies, text, written, bytes, .inr ⟨rfl, response, rfl, .inl lost⟩⟩ }
    · refine { read := ⟨_, reads, ?_⟩, index, ids, sent := each,
               wrote := ⟨_, _, transcript_append written serialized, ?_, .inl rfl⟩ }
      · show Connection.Left { c with requestIndex := _, reader, written := _ } _ _
        rw [Connection.Left, running]
      · show c.written ++ encode last.toList = _
        rw [bytes, encode_append]
  · simp only [Connection.reply, serializeResponse_long sent short]
    exact { read := ⟨_, reads, .inr (.inr ⟨response, List.getLast?_concat, short⟩)⟩, index, ids, sent := each,
            wrote := ⟨replies, text, written, bytes, .inr ⟨rfl, response, rfl, .inr short⟩⟩ }

end Steps

/-! ## The server -/

namespace Server

open Backend

/-- The jobs done since the shared state was `b`, and the bytes that came, explain the server. -/
structure Explained (hash : String → Nat) (rowHash : Nat → String → Nat) (b : Backend) (jobs : List Job)
    (arrived : Nat → List UInt8) (s : Server) : Prop where
  backend : s.backend = (serial hash rowHash).after b jobs
  counted : s.backend.Counted rowHash (observations jobs)
  sequence : s.connectionSequence = s.connections.length
  named : ∀ i (c : Connection), s.connections[i]? = some c → ∃ peer, c.connectionId = nextConnectionId peer (i + 1)
  connection : ∀ i (c : Connection), s.connections[i]? = some c →
    c.Explained (arrived i) (linesOf i jobs) (repliesTo hash rowHash i b jobs)
  absent : ∀ i, s.connections[i]? = none →
    arrived i = [] ∧ linesOf i jobs = [] ∧ repliesTo hash rowHash i b jobs = []

variable {hash : String → Nat} {rowHash : Nat → String → Nat} {b : Backend} {jobs : List Job}
  {arrived : Nat → List UInt8} {s : Server}

/-- A step that concerns one connection: it does these jobs, all for that connection, and brings it
these bytes. -/
theorem Explained.update (h : Explained hash rowHash b jobs arrived s) {j : Nat} (f : Connection → Connection)
    (more : List Job) (data : Nat → List UInt8) (named : ∀ c, (f c).connectionId = c.connectionId)
    (counted : ((serial hash rowHash).after s.backend more).Counted rowHash (observations (jobs ++ more)))
    (others : ∀ i, i ≠ j ∨ s.connections[j]? = none →
      data i = [] ∧ linesOf i more = [] ∧ repliesTo hash rowHash i s.backend more = [])
    (here : ∀ c, s.connections[j]? = some c → c.Explained (arrived j) (linesOf j jobs) (repliesTo hash rowHash j b jobs) →
      (f c).Explained (arrived j ++ data j) (linesOf j jobs ++ linesOf j more)
        (repliesTo hash rowHash j b jobs ++ repliesTo hash rowHash j s.backend more)) :
    Explained hash rowHash b (jobs ++ more) (fun i => arrived i ++ data i)
      ({ s with backend := (serial hash rowHash).after s.backend more }.update j f) := by
  have unchanged (i : Nat) (other : i ≠ j ∨ s.connections[j]? = none) :
      arrived i ++ data i = arrived i ∧ linesOf i (jobs ++ more) = linesOf i jobs ∧
        repliesTo hash rowHash i b (jobs ++ more) = repliesTo hash rowHash i b jobs := by
    obtain ⟨none, unread, unanswered⟩ := others i other
    rw [none, linesOf_append, unread, repliesTo_append, ← h.backend, unanswered, List.append_nil, List.append_nil,
      List.append_nil]
    exact ⟨rfl, rfl, rfl⟩
  have modified (i : Nat) : (s.connections.modify j f)[i]? =
      if j = i then s.connections[i]?.map f else s.connections[i]? := by
    rw [List.getElem?_modify]
    split
    · rfl
    · cases s.connections[i]? <;> rfl
  constructor
  · show _ = (serial hash rowHash).after b (jobs ++ more)
    rw [Machine.after_append, ← h.backend]
    rfl
  · exact counted
  · show s.connectionSequence = (s.connections.modify j f).length
    rw [List.length_modify, h.sequence]
  · intro i c found
    have found : (s.connections.modify j f)[i]? = some c := found
    rw [modified] at found
    split at found
    · obtain ⟨c, before, rfl⟩ := Option.map_eq_some_iff.mp found
      exact named c ▸ h.named i c before
    · exact h.named i c found
  · intro i c found
    have found : (s.connections.modify j f)[i]? = some c := found
    rw [modified] at found
    split at found
    · rename_i same
      subst same
      obtain ⟨c, before, rfl⟩ := Option.map_eq_some_iff.mp found
      rw [linesOf_append, repliesTo_append, ← h.backend]
      exact here c before (h.connection j c before)
    · rename_i other
      obtain ⟨none, unread, unanswered⟩ := unchanged i (.inl (Ne.symm other))
      rw [none, unread, unanswered]
      exact h.connection i c found
  · intro i missing
    have missing : (s.connections.modify j f)[i]? = none := missing
    rw [modified] at missing
    have before : s.connections[i]? = none ∧ (i ≠ j ∨ s.connections[j]? = none) := by
      split at missing
      · rename_i same
        subst same
        have none := Option.map_eq_none_iff.mp missing
        exact ⟨none, .inr none⟩
      · rename_i other
        exact ⟨missing, .inl (Ne.symm other)⟩
    obtain ⟨none, unread, unanswered⟩ := unchanged i before.2
    rw [none, unread, unanswered]
    exact h.absent i before.1

/-- A step that does no job. -/
theorem Explained.touch (h : Explained hash rowHash b jobs arrived s) {j : Nat} (f : Connection → Connection)
    (named : ∀ c, (f c).connectionId = c.connectionId)
    (here : ∀ c, s.connections[j]? = some c → c.Explained (arrived j) (linesOf j jobs) (repliesTo hash rowHash j b jobs) →
      (f c).Explained (arrived j) (linesOf j jobs) (repliesTo hash rowHash j b jobs)) :
    Explained hash rowHash b (jobs ++ []) (fun i => arrived i ++ []) (s.update j f) := by
  refine h.update f [] (fun _ => []) named ?_ (fun i _ => ⟨rfl, rfl, rfl⟩) fun c found told => ?_
  · rw [List.append_nil]
    exact h.counted
  · show (f c).Explained (arrived j ++ []) (linesOf j jobs ++ []) (repliesTo hash rowHash j b jobs ++ [])
    rw [List.append_nil, List.append_nil, List.append_nil]
    exact here c found told

/-- A round that reads a line. -/
theorem round_line {i : Nat} {c : Connection} {raw : List UInt8} {reader : LineReader UInt8}
    (more : c.reader.atEof = false) (some : raw ≠ [])
    (read : c.reader.readline 10 readLimit = (.line raw, reader)) (clock : Clock ℚ)
    (append : LogOutcome) (durationSeconds : ℚ) :
    let job := Job.line i raw c.connectionId (requestIdOf c.connectionId (c.requestIndex + 1)) clock append
      durationSeconds
    let step := (serial hash rowHash).step s.backend job
    s.round hash rowHash i c clock append durationSeconds =
      ([job], { s with backend := step.2 }.update i fun d =>
        { d with requestIndex := c.requestIndex + 1, reader }.reply step.1) := by
  obtain ⟨first, rest, rfl⟩ := List.exists_cons_of_ne_nil some
  rw [Server.round, if_neg (by rw [more]; decide), read]

/-- **One round** of a handler. -/
theorem Explained.round (h : Explained hash rowHash b jobs arrived s) {i : Nat} {c : Connection}
    (found : s.connections[i]? = some c) (running : c.handler = .running) (clock : Clock ℚ)
    (append : LogOutcome) (durationSeconds : ℚ) :
    Explained hash rowHash b (jobs ++ (s.round hash rowHash i c clock append durationSeconds).1)
      (fun k => arrived k ++ []) (s.round hash rowHash i c clock append durationSeconds).2 := by
  have told := h.connection i c found
  -- A round that reads no line changes the connection alone.
  have quiet (f : Connection → Connection) (named : ∀ c, (f c).connectionId = c.connectionId)
      (here : (f c).Explained (arrived i) (linesOf i jobs) (repliesTo hash rowHash i b jobs)) :
      Explained hash rowHash b (jobs ++ []) (fun k => arrived k ++ []) (s.update i f) :=
    h.touch f named fun c' found' _ => Option.some.inj (found.symm.trans found') ▸ here
  have answered {raw : List UInt8} {reader : LineReader UInt8} (more : c.reader.atEof = false) (some : raw ≠ [])
      (read : c.reader.readline 10 readLimit = (.line raw, reader))
      (reads : LineReader.Reads 10 reader.eof (linesOf i jobs ++ [raw]) reader.buffer (arrived i)) :
      Explained hash rowHash b (jobs ++ (s.round hash rowHash i c clock append durationSeconds).1)
        (fun k => arrived k ++ []) (s.round hash rowHash i c clock append durationSeconds).2 := by
    rw [round_line more some read]
    have one := h.counted.line hash i raw c.connectionId
      (requestIdOf c.connectionId (c.requestIndex + 1)) clock append durationSeconds
    obtain ⟨response, replied, sent, named, counted⟩ := one
    have names (c' : Connection) (response : Option CommandResponse) :
        (c'.reply response).connectionId = c'.connectionId := by
      unfold Connection.reply
      split
      · rfl
      · split
        · rfl
        · split <;> rfl
    refine h.update _ [_] (fun _ => []) (fun d => names _ _) ?_ ?_ fun c' found' _ => ?_
    · rw [observations_append]
      exact counted
    · intro k other
      have apart : ¬ i = k := fun same => by
        rcases other with other | missing
        · exact other same.symm
        · rw [found] at missing
          cases missing
      refine ⟨rfl, ?_, ?_⟩
      · simp [linesOf, apart]
      · simp [repliesTo, Machine.collect, replyTo, apart]
    · obtain rfl : c = c' := Option.some.inj (found.symm.trans found')
      have line : linesOf i [Job.line i raw c.connectionId (requestIdOf c.connectionId (c.requestIndex + 1))
          clock append durationSeconds] = [raw] := by simp [linesOf]
      have reply : repliesTo hash rowHash i s.backend [Job.line i raw c.connectionId
          (requestIdOf c.connectionId (c.requestIndex + 1)) clock append durationSeconds] = [response] := by
        simp [repliesTo, Machine.collect, replyTo, replied]
      rw [line, reply, replied, List.append_nil]
      exact told.answer running reads sent named
  have reads := told.read_all running
  cases ended : c.reader.atEof with
  | true =>
    obtain ⟨eof, empty⟩ : c.reader.eof = true ∧ c.reader.buffer = [] := by
      simpa [LineReader.atEof] using ended
    rw [Server.round, if_pos ended]
    refine quiet _ (fun _ => rfl) ?_
    exact told.finish running c.reader eof eof empty
  | false =>
    rcases c.reader.readline_cases 10 readLimit with ⟨body, rest, buffered, free, _, read⟩ |
      ⟨free, eof, read⟩ | ⟨long, read⟩ | ⟨_, _, read⟩
    · refine answered ended (by simp) read ?_
      rw [buffered] at reads
      exact reads.line free
    · have some : c.reader.buffer ≠ [] := fun none => by simp [LineReader.atEof, eof, none] at ended
      refine answered ended some read ?_
      rw [eof] at reads
      show LineReader.Reads 10 c.reader.eof _ [] _
      rw [eof]
      exact reads.last free some
    · have whole : c.reader.readline 10 readLimit = (.overrun, (c.reader.readline 10 readLimit).2) := by
        rw [← read]
      rw [Server.round, if_neg (by rw [ended]; decide), whole]
      refine quiet _ (fun _ => rfl) ?_
      exact told.overrun running c.reader.readline_eof long
    · rw [Server.round, if_neg (by rw [ended]; decide), read]
      have same := quiet id (fun _ => rfl) told
      rwa [Server.update, List.modify_id] at same

/-- A connection is made. -/
theorem Explained.connected (h : Explained hash rowHash b jobs arrived s) (peer : Option (String × String)) :
    Explained hash rowHash b jobs arrived ((machine hash rowHash).step s (.connected peer)).2 := by
  have next (i : Nat) : ((machine hash rowHash).step s (.connected peer)).2.connections[i]? =
      if i < s.connections.length then s.connections[i]?
      else if i = s.connections.length then
        some (.opened (nextConnectionId peer (s.connectionSequence + 1)))
      else none := by
    show (s.connections ++ [.opened (nextConnectionId peer (s.connectionSequence + 1))])[i]? = _
    split
    · rename_i old
      exact List.getElem?_append_left old
    · rename_i new
      rw [List.getElem?_append_right (by omega)]
      split
      · rename_i last
        rw [last, Nat.sub_self]
        rfl
      · exact List.getElem?_eq_none (by simp; omega)
  have missing (i : Nat) (new : ¬ i < s.connections.length) : s.connections[i]? = none :=
    List.getElem?_eq_none (by omega)
  constructor
  · exact h.backend
  · exact h.counted
  · show s.connectionSequence + 1 = (s.connections ++ [_]).length
    rw [List.length_append, List.length_singleton, h.sequence]
  · intro i c found
    rw [next] at found
    split at found
    · exact h.named i c found
    · split at found
      · rename_i last
        cases found
        exact ⟨peer, by rw [last, h.sequence]; rfl⟩
      · cases found
  · intro i c found
    rw [next] at found
    split at found
    · exact h.connection i c found
    · rename_i new
      obtain ⟨none, unread, unanswered⟩ := h.absent i (missing i new)
      rw [none, unread, unanswered]
      split at found
      · cases found
        exact opened_explained _
      · cases found
  · intro i absent
    rw [next] at absent
    split at absent
    · exact h.absent i absent
    · rename_i new
      exact h.absent i (missing i new)

/-- The refreshing task does its job. -/
theorem Explained.refresh (h : Explained hash rowHash b jobs arrived s) (clocks : Nat → Clock ℚ) :
    Explained hash rowHash b (jobs ++ [.refresh clocks]) arrived
      ((machine hash rowHash).step s (.refresh clocks)).2 := by
  have unread (i : Nat) : linesOf i (jobs ++ [.refresh clocks]) = linesOf i jobs := by
    rw [linesOf_append]
    exact List.append_nil _
  have unanswered (i : Nat) : repliesTo hash rowHash i b (jobs ++ [.refresh clocks]) =
      repliesTo hash rowHash i b jobs := by
    rw [repliesTo_append]
    exact List.append_nil _
  constructor
  · rw [Machine.after_append, ← h.backend]
    rfl
  · rw [observations_append]
    show Backend.Counted rowHash (observations jobs ++ []) (s.backend.refreshMetricsSnapshot clocks)
    rw [List.append_nil]
    exact h.counted.refreshMetricsSnapshot clocks
  · exact h.sequence
  · exact h.named
  · intro i c found
    rw [unread, unanswered]
    exact h.connection i c found
  · intro i missing
    rw [unread, unanswered]
    exact h.absent i missing

/-- **One step** of the server, whatever happens. -/
theorem Explained.step (h : Explained hash rowHash b jobs arrived s) (event : ServerEvent) :
    let r := (machine hash rowHash).step s event
    Explained hash rowHash b (jobs ++ r.1) (fun i => arrived i ++ arrives i s event) r.2 := by
  have still {s' : Server} (h : Explained hash rowHash b jobs arrived s') :
      Explained hash rowHash b (jobs ++ []) (fun i => arrived i ++ []) s' := by
    simpa only [List.append_nil] using h
  cases event with
  | connected peer => exact still (h.connected peer)
  | dataReceived j data =>
    refine h.update (fun c => c.dataReceived data) [] (fun i => arrives i s (.dataReceived j data))
      (fun c => ?_) ?_ (fun i other => ⟨?_, rfl, rfl⟩) fun c found told => ?_
    · unfold Connection.dataReceived
      split <;> rfl
    · rw [List.append_nil]
      exact h.counted
    · apply if_neg
      rintro ⟨rfl, listens⟩
      rcases other with other | missing
      · exact other rfl
      · rw [missing] at listens
        cases listens
    · have brought : arrives j s (.dataReceived j data) = if c.listens then data else [] := by
        simp [arrives, found]
      rw [brought]
      show (c.dataReceived _).Explained _ (linesOf j jobs ++ []) (repliesTo hash rowHash j b jobs ++ [])
      rw [List.append_nil, List.append_nil]
      exact told.dataReceived _
  | eofReceived j =>
    refine h.touch _ (fun c => ?_) fun c _ told => told.eofReceived
    unfold Connection.eofReceived
    split <;> rfl
  | connectionLost j exc =>
    refine h.touch (fun c => c.connectionLost exc) (fun c => ?_) fun c _ told => told.connectionLost exc
    unfold Connection.connectionLost
    split
    · split <;> rfl
    · rfl
  | round j clock append durationSeconds =>
    show Explained hash rowHash b (jobs ++ ((machine hash rowHash).step s (.round j clock append durationSeconds)).1)
      (fun i => arrived i ++ []) _
    cases found : s.connections[j]? with
    | none =>
      simp only [machine, found]
      exact still h
    | some c =>
      simp only [machine, found]
      split
      · rename_i running
        exact h.round found running clock append durationSeconds
      · exact still h
  | refresh clocks =>
    show Explained hash rowHash b (jobs ++ [.refresh clocks]) (fun i => arrived i ++ []) _
    simpa only [List.append_nil] using h.refresh clocks

/-- A run. -/
theorem Explained.run (h : Explained hash rowHash b jobs arrived s) (events : List ServerEvent) :
    Explained hash rowHash b (jobs ++ s.jobs hash rowHash events)
      (fun i => arrived i ++ s.arrived hash rowHash i events) ((machine hash rowHash).after s events) := by
  induction events generalizing s jobs arrived with
  | nil =>
    show Explained hash rowHash b (jobs ++ []) (fun i => arrived i ++ []) s
    simpa only [List.append_nil] using h
  | cons event events ih =>
    have rest := ih (h.step event)
    simp only [List.append_assoc] at rest
    exact rest

/-- A server before its first connection. -/
theorem started_explained (workerCount : Nat) (positive : 0 < workerCount) (file : List Char)
    (clocks snapshotClocks : Nat → Clock ℚ) :
    let start := started hash workerCount positive file clocks snapshotClocks
    Explained hash rowHash start.backend [] (fun _ => []) start where
  backend := rfl
  counted := Counted.refreshMetricsSnapshot ⟨.init, rfl, rfl⟩ snapshotClocks
  sequence := rfl
  named _ _ found := by cases found
  connection _ _ found := by cases found
  absent _ _ := ⟨rfl, rfl, rfl⟩

/-- The jobs of a run of a server from its start explain it. -/
theorem run_explained (hash : String → Nat) (rowHash : Nat → String → Nat) (workerCount : Nat)
    (positive : 0 < workerCount) (file : List Char) (clocks snapshotClocks : Nat → Clock ℚ)
    (events : List ServerEvent) :
    let start := started hash workerCount positive file clocks snapshotClocks
    Explained hash rowHash start.backend (start.jobs hash rowHash events)
      (fun i => start.arrived hash rowHash i events) ((machine hash rowHash).after start events) :=
  (started_explained workerCount positive file clocks snapshotClocks).run events

/-- A run that one serial execution of its jobs explains. -/
structure Serialized (hash : String → Nat) (rowHash : Nat → String → Nat) (start : Server)
    (events : List ServerEvent) : Prop where
  /-- The shared state is that of the serial execution. -/
  backend : ((machine hash rowHash).after start events).backend =
    (serial hash rowHash).after start.backend (start.jobs hash rowHash events)
  /-- The lines of a connection among the jobs, and then those of the bytes that its handler has left, are
  the lines of the bytes that came. -/
  lines : ∀ i (c : Connection), ((machine hash rowHash).after start events).connections[i]? = some c →
    ∃ rest, c.Left (repliesTo hash rowHash i start.backend (start.jobs hash rowHash events)) rest ∧
      LineReader.chop 10 (start.arrived hash rowHash i events) =
        linesOf i (start.jobs hash rowHash events) ++ LineReader.chop 10 rest
  /-- Each has one answer in the serial execution. -/
  answered : ∀ i, (repliesTo hash rowHash i start.backend (start.jobs hash rowHash events)).length =
    (linesOf i (start.jobs hash rowHash events)).length
  /-- These are written, but perhaps for the last of a connection that was lost or the last where it has
  no text. -/
  written : ∀ i (c : Connection), ((machine hash rowHash).after start events).connections[i]? = some c →
    let replies := repliesTo hash rowHash i start.backend (start.jobs hash rowHash events)
    ∃ told text, LiteStoreRuntime.transcript told = .ok text ∧ c.written = encode text ∧
      (told = replies ∨ c.handler = .failed ∧ ∃ last, replies = told ++ [last] ∧
        (c.lost = true ∨ ¬ last.Writable))

/-- **One serial execution.** Whatever happens to a server, in whatever order and in whatever pieces bytes
arrive, one serial execution of the lines explains what its clients see. -/
theorem served_serially (hash : String → Nat) (rowHash : Nat → String → Nat) (workerCount : Nat)
    (positive : 0 < workerCount) (file : List Char) (clocks snapshotClocks : Nat → Clock ℚ)
    (events : List ServerEvent) :
    Serialized hash rowHash (started hash workerCount positive file clocks snapshotClocks) events := by
  have h := run_explained hash rowHash workerCount positive file clocks snapshotClocks events
  refine ⟨h.backend, fun i c found => ?_, fun i => ?_, fun i c found => (h.connection i c found).wrote⟩
  · obtain ⟨rest, reads, left⟩ := (h.connection i c found).read
    exact ⟨rest, left, reads.lines_eq⟩
  · cases found : ((machine hash rowHash).after
      (started hash workerCount positive file clocks snapshotClocks) events).connections[i]? with
    | none =>
      obtain ⟨_, unread, unanswered⟩ := h.absent i found
      rw [unread, unanswered]
      rfl
    | some c => exact (h.connection i c found).length_replies

/-- Two clients; the bytes of the first come in pieces, the append of its second line fails, and it is
lost before its third. -/
def piecewise : List ServerEvent :=
  [.connected (some ("127.0.0.1", "5000")), .dataReceived 0 [80, 73], .connected none, .dataReceived 1 [80, 10],
   .dataReceived 0 [78, 71, 10, 83, 69, 84, 32, 107, 32, 118, 13, 10], .round 0 (Clock.still 0) .done 0,
   .round 1 (Clock.still 0) .done 0, .dataReceived 0 [80, 73, 78, 71],
   .round 0 (Clock.still 1) (.unflushed "No space left on device" 0 0) 0, .refresh fun _ => Clock.still 1,
   .connectionLost 0 false, .round 0 (Clock.still 2) .done 0, .eofReceived 1, .round 1 (Clock.still 2) .done 0]

theorem piecewise_served :
    Serialized Sha256.leading CountMinSketch.sha256Row
      (started Sha256.leading 1 Nat.one_pos [] (fun _ => Clock.still 0) fun _ => Clock.still 0) piecewise :=
  served_serially Sha256.leading CountMinSketch.sha256Row 1 Nat.one_pos [] _ _ piecewise

end Server
end LiteStore
