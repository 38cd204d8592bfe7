import LiteStore.Server.Log
import LiteStore.Shard.Reshard

/-!
# What the clients get

Every request of a run has an id of its own, whatever the peers are called, and its answer carries it.
A client that decodes what is written to it, splits it at CR LF and counts array entries gets the
answers to its lines, each once and in order, also on a server that was started on the log of other
runs: no line brings a line feed into a store (`AllTold`) or into the log (`Scribed`).
-/

namespace LiteStore
set_option autoImplicit false
open Py

/-! ## Request ids -/

theorem requestIdOf_toList (connectionId : String) (requestIndex : Nat) :
    (requestIdOf connectionId requestIndex).toList = connectionId.toList ++ ':' :: Nat.toDigits 10 requestIndex := by
  simp [requestIdOf]

/-- A text ends in one number. -/
theorem append_digits_inj {front front' : List Char} {n n' : Nat}
    (same : front ++ ':' :: Nat.toDigits 10 n = front' ++ ':' :: Nat.toDigits 10 n') : front = front' ∧ n = n' := by
  have digit (n : Nat) : ∀ c ∈ (Nat.toDigits 10 n).reverse, decide (c ≠ ':') = true := by
    intro c m
    refine decide_eq_true fun colon => ?_
    subst colon
    exact absurd (Nat.isDigit_of_mem_toDigits (by decide) (by decide) (List.mem_reverse.mp m)) (by decide)
  have turned := congrArg List.reverse same
  simp only [List.reverse_append, List.reverse_cons, List.append_assoc, List.singleton_append] at turned
  have number := congrArg (List.takeWhile fun c => decide (c ≠ ':')) turned
  have others := congrArg (List.dropWhile fun c => decide (c ≠ ':')) turned
  rw [Span.takeWhile_stop (digit n) rfl, Span.takeWhile_stop (digit n') rfl] at number
  rw [Span.dropWhile_stop (digit n) rfl, Span.dropWhile_stop (digit n') rfl] at others
  have value := congrArg (fun l => Nat.ofDigitChars 10 l 0) (List.reverse_injective number)
  simp only [Nat.ofDigitChars_ten_toDigits] at value
  exact ⟨List.reverse_injective (List.cons.inj others).2, value⟩

theorem requestIdOf_injective {connectionId connectionId' : String} {k k' : Nat}
    (same : requestIdOf connectionId k = requestIdOf connectionId' k') :
    connectionId = connectionId' ∧ k = k' := by
  have texts := congrArg String.toList same
  rw [requestIdOf_toList, requestIdOf_toList] at texts
  obtain ⟨front, number⟩ := append_digits_inj texts
  exact ⟨String.toList_inj.mp front, number⟩

/-- The sequence number ends the connection id. -/
theorem nextConnectionId_toList (peer : Option (String × String)) (sequence : Nat) :
    ∃ front, (nextConnectionId peer sequence).toList = front ++ ':' :: Nat.toDigits 10 sequence := by
  cases peer with
  | none => exact ⟨"connection".toList, by simp [nextConnectionId]⟩
  | some peer =>
    exact ⟨peer.1.toList ++ ':' :: peer.2.toList, by simp [nextConnectionId]⟩

theorem nextConnectionId_injective {peer peer' : Option (String × String)} {n n' : Nat}
    (same : nextConnectionId peer n = nextConnectionId peer' n') : n = n' := by
  obtain ⟨front, text⟩ := nextConnectionId_toList peer n
  obtain ⟨front', text'⟩ := nextConnectionId_toList peer' n'
  have texts := congrArg String.toList same
  rw [text, text'] at texts
  exact (append_digits_inj texts).2

namespace Server
open Backend

/-- **Every request has its own id.** Two answers of a run with the same id are the same answer: to the
same connection, at the same place among its answers. -/
theorem request_ids_distinct (hash : String → Nat) (rowHash : Nat → String → Nat) (workerCount : Nat)
    (positive : 0 < workerCount) (file : List Char) (clocks snapshotClocks : Nat → Clock ℚ)
    (events : List ServerEvent) :
    let start := started hash workerCount positive file clocks snapshotClocks
    let replies (i : Nat) := repliesTo hash rowHash i start.backend (start.jobs hash rowHash events)
    ∀ (i j k l : Nat) (r r' : CommandResponse), (replies i)[k]? = some r → (replies j)[l]? = some r' →
      (r.requestId = r'.requestId ↔ i = j ∧ k = l) := by
  intro start replies i j k l r r' first second
  have h := run_explained hash rowHash workerCount positive file clocks snapshotClocks events
  -- An answer belongs to a connection, whose id and index make its own.
  have id {i k : Nat} {r : CommandResponse} (there : (replies i)[k]? = some r) :
      ∃ peer, r.requestId = some (requestIdOf (nextConnectionId peer (i + 1)) (k + 1)) := by
    cases found : ((machine hash rowHash).after start events).connections[i]? with
    | none =>
      have none : replies i = [] := (h.absent i found).2.2
      rw [none] at there
      cases there
    | some c =>
      obtain ⟨peer, named⟩ := h.named i c found
      have listed : ((replies i).map (·.requestId))[k]? = some r.requestId := by
        rw [List.getElem?_map, there]
        rfl
      rw [(h.connection i c found).ids, List.getElem?_map] at listed
      obtain ⟨k', place, same⟩ := Option.map_eq_some_iff.mp listed
      obtain ⟨bound, rfl⟩ := List.getElem?_eq_some_iff.mp place
      rw [List.getElem_range, named] at same
      exact ⟨peer, same.symm⟩
  obtain ⟨peer, named⟩ := id first
  obtain ⟨peer', named'⟩ := id second
  rw [named, named']
  constructor
  · intro same
    obtain ⟨connection, index⟩ := requestIdOf_injective (Option.some.inj same)
    have sequence := nextConnectionId_injective connection
    omega
  · rintro ⟨rfl, rfl⟩
    have equal : r = r' := Option.some.inj (first.symm.trans second)
    rw [← named, ← named', equal]

theorem piecewise_ids_distinct :
    let start := started Sha256.leading 1 Nat.one_pos [] (fun _ => Clock.still 0) fun _ => Clock.still 0
    let replies (i : Nat) := repliesTo Sha256.leading CountMinSketch.sha256Row i start.backend
      (start.jobs Sha256.leading CountMinSketch.sha256Row piecewise)
    ∀ (i j k l : Nat) (r r' : CommandResponse), (replies i)[k]? = some r → (replies j)[l]? = some r' →
      (r.requestId = r'.requestId ↔ i = j ∧ k = l) :=
  request_ids_distinct Sha256.leading CountMinSketch.sha256Row 1 Nat.one_pos [] _ _ piecewise

end Server

/-! ## Texts without line feeds -/

/-- The file holds whole records, and no argument in it holds a line feed. -/
def Scribed (file : List Char) : Prop :=
  ∃ records : List PersistRecord, file = records.flatMap PersistRecord.line ∧
    ∀ record ∈ records, ∀ a ∈ record.request.args, '\n' ∉ a.toList

variable (hash : String → Nat) {rt : LiteStoreRuntime ℚ}

/-- The replay of records without line feeds. -/
theorem allTold_replay (h : rt.AllTold) (clocks : Nat → Clock ℚ) {records : List PersistRecord}
    (free : ∀ record ∈ records, ∀ a ∈ record.request.args, '\n' ∉ a.toList) :
    (Id.run (rt.replayPersistence hash clocks records)).AllTold := by
  induction records generalizing rt clocks with
  | nil => exact h
  | cons record records ih =>
    rw [LiteStoreRuntime.replayPersistence_cons]
    apply ih
    · exact (h.executeRouted hash (clocks 0) (free record List.mem_cons_self)).1
    · exact fun r m => free r (List.mem_cons_of_mem _ m)

/-- A runtime that is started on such a file. -/
theorem allTold_started (workerCount : Nat) (positive : 0 < workerCount) {file : List Char} (scribed : Scribed file)
    (clocks : Nat → Clock ℚ) : (LiteStoreRuntime.started hash workerCount positive file clocks).AllTold := by
  obtain ⟨records, whole, free⟩ := scribed
  set rt : LiteStoreRuntime ℚ := LiteStoreRuntime.create workerCount positive file with hrt
  have holds : rt.persistence.Holds records := ⟨whole, rfl⟩
  have free' : ∀ record ∈ rt.persistence.replay, ∀ a ∈ record.request.args, '\n' ∉ a.toList := by
    rw [holds.replay]
    intro record m
    obtain ⟨record', there, rfl⟩ := List.mem_map.mp m
    exact free record' there
  exact allTold_replay hash (LiteStoreRuntime.create_allTold workerCount positive file) clocks free'

/-! ## Jobs -/

variable (rowHash : Nat → String → Nat)

/-- The job is a line as `readline` returns it. -/
def Job.Lined : Job → Prop
  | .line _ raw _ _ _ _ _ => LiteStoreRuntime.IsLine raw
  | .refresh _ => True

/-- Its request has no line feeds. -/
theorem Job.Lined.newline {job : Job} (lined : job.Lined) {request : CommandRequest}
    (accepted : job.request = some request) : ∀ a ∈ request.args, '\n' ∉ a.toList := by
  cases job with
  | refresh clocks => cases accepted
  | line i raw connectionId requestId clock append durationSeconds =>
    rw [Job.request] at accepted
    cases parsed : parseCommand (String.ofList (decode raw)) (some requestId) (some connectionId) with
    | error exc =>
      rw [parsed] at accepted
      cases accepted
    | ok request' =>
      rw [parsed] at accepted
      cases accepted
      exact (lined.parsed connectionId requestId).1 request parsed

namespace Backend

variable {hash rowHash} {b : Backend}

variable (hash rowHash) in
/-- A job. -/
theorem allTold_step (h : b.runtime.AllTold) {job : Job} (lined : job.Lined)
    (quiet : ∀ append, job.outcome = some append → LiteStoreRuntime.OneLineError append) :
    ((serial hash rowHash).step b job).2.runtime.AllTold ∧
      ∀ response ∈ ((serial hash rowHash).step b job).1, OneLiner response := by
  cases job with
  | refresh clocks => exact ⟨h.refresh clocks _ _, fun _ m => by cases m⟩
  | line i raw connectionId requestId clock append durationSeconds =>
    have step : (serial hash rowHash).step b (.line i raw connectionId requestId clock append durationSeconds) =
      b.processCommandBytes hash rowHash clock append durationSeconds raw connectionId requestId := rfl
    have free := LiteStoreRuntime.IsLine.parsed lined connectionId requestId
    rw [step, processCommandBytes]
    cases parsed : parseCommand (String.ofList (decode raw)) (some requestId) (some connectionId) with
    | error exc =>
      refine ⟨h, ?_⟩
      rintro _ ⟨⟩
      refine ⟨?_, speaks_of_none rfl rfl⟩
      rintro _ ⟨⟩
      exact free.2 exc parsed
    | ok request =>
      obtain ⟨told, _, single⟩ := h.dispatchRequest hash clock (quiet append rfl) (free.1 request parsed)
      dsimp only
      cases b.metrics.observeCommand rowHash ⟨request, durationSeconds⟩ with
      | none => exact ⟨told, fun _ m => by cases m⟩
      | some metrics =>
        refine ⟨told, ?_⟩
        rintro _ ⟨⟩
        exact single

variable (hash rowHash) in
/-- A serial execution. -/
theorem replies_oneLiner (h : b.runtime.AllTold) {jobs : List Job} (lined : ∀ job ∈ jobs, job.Lined)
    (quiet : ∀ job ∈ jobs, ∀ append, job.outcome = some append → LiteStoreRuntime.OneLineError append) (i : Nat) :
    ∀ response ∈ repliesTo hash rowHash i b jobs, OneLiner response := by
  induction jobs generalizing b with
  | nil => exact fun _ m => by cases m
  | cons job jobs ih =>
    obtain ⟨told, single⟩ := allTold_step hash rowHash h (lined job List.mem_cons_self) (quiet job List.mem_cons_self)
    intro response m
    rcases List.mem_append.mp m with here | later
    · refine single response ?_
      unfold replyTo at here
      split at here
      · split at here
        · simpa using here
        · cases here
      · cases here
    · exact ih told (fun j m => lined j (List.mem_cons_of_mem _ m)) (fun j m => quiet j (List.mem_cons_of_mem _ m))
        response later

end Backend

namespace Server
open Backend

variable {hash rowHash} {s : Server}

/-- An append in the event raises no text with a line feed. -/
def OneLineErrors (event : ServerEvent) : Prop :=
  ∀ append, outcome event = some append → LiteStoreRuntime.OneLineError append

/-- The jobs of a run are lines. -/
theorem jobs_lined {b : Backend} {jobs : List Job} {arrived : Nat → List UInt8}
    (h : Explained hash rowHash b jobs arrived s) : ∀ job ∈ jobs, job.Lined := by
  intro job m
  cases job with
  | refresh clocks => trivial
  | line i raw connectionId requestId clock append durationSeconds =>
    have listed : raw ∈ linesOf i jobs := List.mem_filterMap.mpr ⟨_, m, if_pos rfl⟩
    cases found : s.connections[i]? with
    | none =>
      rw [(h.absent i found).2.1] at listed
      cases listed
    | some c =>
      obtain ⟨rest, reads, _⟩ := (h.connection i c found).read
      apply LineReader.mem_chop
      rw [reads.lines_eq]
      exact List.mem_append_left _ listed

/-- The log files that runs of the server leave, one after the other, whose writes and flushes go through. -/
inductive Lineage (hash : String → Nat) (rowHash : Nat → String → Nat) : List Char → Prop
  | new : Lineage hash rowHash []
  | run {file : List Char} (earlier : Lineage hash rowHash file) (workerCount : Nat) (positive : 0 < workerCount)
      (clocks snapshotClocks : Nat → Clock ℚ) (events : List ServerEvent)
      (flushes : ∀ event ∈ events, Flushes event) :
      Lineage hash rowHash ((machine hash rowHash).after
        (started hash workerCount positive file clocks snapshotClocks) events).backend.runtime.persistence.file

/-- Such a file holds whole records without line feeds. -/
theorem Lineage.scribed {file : List Char} (h : Lineage hash rowHash file) : Scribed file := by
  induction h with
  | new => exact ⟨[], rfl, List.forall_mem_nil _⟩
  | @run file _ workerCount positive clocks snapshotClocks events flushes ih =>
    obtain ⟨records, whole, free⟩ := ih
    set start := started hash workerCount positive file clocks snapshotClocks
    have h := run_explained hash rowHash workerCount positive file clocks snapshotClocks events
    have begun : Explained hash rowHash start.backend [] (fun _ => []) start :=
      started_explained workerCount positive file clocks snapshotClocks
    have holds : start.backend.runtime.persistence.Holds records := by
      rw [started_persistence]
      exact ⟨whole, rfl⟩
    have flushed : ∀ job ∈ start.jobs hash rowHash events, job.Flushes := jobs_flush flushes
    obtain ⟨more, grown, each⟩ := after_records hash ⟨_, begun.counted⟩ holds flushed
    rw [← h.backend] at grown
    refine ⟨records ++ more, grown.file, List.forall_mem_append.mpr ⟨free, fun r m => ?_⟩⟩
    obtain ⟨job, there, _, accepted, _⟩ := each r m
    exact (jobs_lined h job there).newline accepted

/-- **The clients get their answers.** On a server that was started on the log of other runs, or on none:
what each client reads from the bytes written to it is the answers of the serial execution to its lines,
each once and in order, but perhaps for the last, if the connection was lost or that answer has no text. -/
theorem clients_read_answers (hash : String → Nat) (rowHash : Nat → String → Nat) (workerCount : Nat)
    (positive : 0 < workerCount) {file : List Char} (lineage : Lineage hash rowHash file)
    (clocks snapshotClocks : Nat → Clock ℚ) (events : List ServerEvent)
    (quiet : ∀ event ∈ events, OneLineErrors event) :
    let start := started hash workerCount positive file clocks snapshotClocks
    let jobs := start.jobs hash rowHash events
    ∀ i (c : Connection), ((machine hash rowHash).after start events).connections[i]? = some c →
      let replies := repliesTo hash rowHash i start.backend jobs
      replies.length = (linesOf i jobs).length ∧
      ∃ told, LiteStoreRuntime.clientReads (decode c.written) = told.map (fun r => some (asRead r)) ∧
        (told = replies ∨ c.handler = .failed ∧ ∃ last, replies = told ++ [last] ∧
          (c.lost = true ∨ ¬ last.Writable)) := by
  intro start jobs i c found replies
  have h := run_explained hash rowHash workerCount positive file clocks snapshotClocks events
  have told := h.connection i c found
  have begins : start.backend.runtime.AllTold :=
    (allTold_started hash workerCount positive lineage.scribed clocks).refresh snapshotClocks _ _
  have single : ∀ response ∈ replies, OneLiner response := by
    refine replies_oneLiner hash rowHash begins (jobs_lined h) (fun job m append made => ?_) i
    obtain ⟨event, there, same⟩ := jobs_outcome m made
    exact quiet event there append same
  refine ⟨told.length_replies, ?_⟩
  obtain ⟨sent, text, written, bytes, kept⟩ := told.wrote
  refine ⟨sent, ?_, kept⟩
  have among : ∀ r ∈ sent, r ∈ replies := by
    rcases kept with rfl | ⟨_, last, same, _⟩
    · exact fun _ m => m
    · intro r m
      show r ∈ repliesTo hash rowHash i start.backend jobs
      rw [show repliesTo hash rowHash i start.backend jobs = sent ++ [last] from same]
      exact List.mem_append_left _ m
  have each : ∀ r ∈ sent, Sent r ∧ OneLiner r := fun r m => ⟨told.sent r (among r m), single r (among r m)⟩
  obtain ⟨output, transcribed, reads⟩ := LiteStoreRuntime.clientReads_transcript each
    (LiteStoreRuntime.writable_of_transcript (fun r m => (each r m).1) written)
  obtain rfl : text = output := Except.ok.inj (written.symm.trans transcribed)
  rw [bytes, decode_encode, reads]

theorem piecewise_read :
    let start := started Sha256.leading 1 Nat.one_pos [] (fun _ => Clock.still 0) fun _ => Clock.still 0
    let jobs := start.jobs Sha256.leading CountMinSketch.sha256Row piecewise
    ∀ i (c : Connection),
      ((machine Sha256.leading CountMinSketch.sha256Row).after start piecewise).connections[i]? = some c →
      let replies := repliesTo Sha256.leading CountMinSketch.sha256Row i start.backend jobs
      replies.length = (linesOf i jobs).length ∧
      ∃ told, LiteStoreRuntime.clientReads (decode c.written) = told.map (fun r => some (asRead r)) ∧
        (told = replies ∨ c.handler = .failed ∧ ∃ last, replies = told ++ [last] ∧
          (c.lost = true ∨ ¬ last.Writable)) := by
  refine clients_read_answers Sha256.leading CountMinSketch.sha256Row 1 Nat.one_pos .new _ _ piecewise ?_
  intro event m append made text raised
  cases event with
  | round i clock append' durationSeconds =>
    cases made
    simp only [piecewise, List.mem_cons, List.not_mem_nil, reduceCtorEq, ServerEvent.round.injEq, or_false,
      false_or] at m
    rcases m with ⟨_, _, rfl, _⟩ | ⟨_, _, rfl, _⟩ | ⟨_, _, rfl, _⟩ | ⟨_, _, rfl, _⟩ | ⟨_, _, rfl, _⟩ <;> cases raised
    decide
  | _ => cases made

end Server
end LiteStore
