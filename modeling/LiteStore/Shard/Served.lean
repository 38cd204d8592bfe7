import LiteStore.Protocol.Stages
import LiteStore.Py.Utf8
import LiteStore.Shard.Errors

/-!
# Lines in, texts out

`_process_command_bytes` of `src/server.py` decodes a line, parses it and dispatches the request;
what does not parse is answered as an error. The texts of the answers, one after the other, are all
that a client sees (`transcript`). A client that splits them at CR LF and counts array entries
(`clientReads`) gets one response for each line it sent, since neither a decoded line, nor a stored
text, nor an error message holds a line feed (`AllTold`). Only an answer that is too long to be written
is missing (`Answerable`), and there is none while the clocks do not go back (`AllNear.along`).
-/

namespace LiteStore
set_option autoImplicit false
open Py MemoryStore

/-- `_error_response` for an error of the parser. -/
def parseErrorResponse (exc : LiteStoreError) (requestId : String) : CommandResponse where
  kind := .ERROR
  errorCode := some exc.code
  message := some exc.message
  requestId := some requestId

namespace LiteStoreRuntime

section Model

variable {τ : Type} [LinearOrder τ] [Zero τ] [Timestamp τ] {m : Type → Type} [Monad m] [TimeArith m τ]
  (hash : String → Nat)

/-- `_process_command_bytes`. -/
def processCommandBytes (rt : LiteStoreRuntime τ) (clock : Clock τ) (append : LogOutcome)
    (raw : List UInt8) (connectionId requestId : String) : m (CommandResponse × LiteStoreRuntime τ) :=
  match parseCommand (String.ofList (decode raw)) (some requestId) (some connectionId) with
  | .error exc => return (parseErrorResponse exc requestId, rt)
  | .ok request => rt.dispatchRequest hash clock append request

end Model

/-- What a listening runtime does: it answers a line, or its metrics are refreshed. -/
inductive LineEvent where
  | line (raw : List UInt8) (connectionId requestId : String) (clock : Clock ℚ)
  | refresh (clocks : Nat → Clock ℚ)

variable (hash : String → Nat) {rt : LiteStoreRuntime ℚ}

/-- The answer to an event, if it is a line, and the runtime after it; appends succeed. -/
def serveEvent (rt : LiteStoreRuntime ℚ) : LineEvent → Option CommandResponse × LiteStoreRuntime ℚ
  | .line raw connectionId requestId clock =>
    let r := Id.run (rt.processCommandBytes hash clock .done raw connectionId requestId)
    (some r.1, r.2)
  | .refresh clocks =>
    (none, (Id.run (rt.refreshMetricsSnapshot clocks Dict.empty rt.workers.keys)).2)

/-- A listening runtime as a machine. -/
def serving : Machine (LiteStoreRuntime ℚ) LineEvent (Option CommandResponse) := ⟨serveEvent hash⟩

/-- The answers to the lines among the events. -/
def answers (rt : LiteStoreRuntime ℚ) (events : List LineEvent) : List CommandResponse :=
  (serving hash).collect (fun rt event => (rt.serveEvent hash event).1.toList) rt events

/-- The line asks for no number that is too long, on the store that the pass of its worker leaves. -/
def Answerable (rt : LiteStoreRuntime ℚ) : LineEvent → Prop
  | .line raw connectionId requestId clock => ∀ request,
    parseCommand (String.ofList (decode raw)) (some requestId) (some connectionId) = .ok request →
      ¬ Unwritable request ((rt.chosen hash request).store.pass (clock 0)) (clock.drop 1)
  | .refresh _ => True

/-- The lines among the events. -/
def lines (events : List LineEvent) : List (List UInt8) :=
  events.filterMap fun event =>
    match event with
    | .line raw _ _ _ => some raw
    | .refresh _ => none

/-- A line that `readline` returns: a line feed, if any, is its last byte. -/
def IsLine (raw : List UInt8) : Prop :=
  ∃ body : List UInt8, (10 : UInt8) ∉ body ∧ (raw = body ++ [10] ∨ raw = body ∧ body ≠ [])

/-! ## Texts without line feeds -/

/-- No text that a worker stores holds a line feed. -/
def AllTold (rt : LiteStoreRuntime ℚ) : Prop :=
  ∀ id w, rt.workers.get? id = some w → Told (fun v => '\n' ∉ v.toList) w.store

theorem newline_strip_decode {raw : List UInt8} (line : IsLine raw) : '\n' ∉ strip (decode raw) := by
  obtain ⟨body, free, rfl | ⟨rfl, _⟩⟩ := line
  · rw [decode_line, strip_append_white _ (by decide)]
    exact fun m => newline_decode free (strip_subset _ m)
  · exact fun m => newline_decode free (strip_subset _ m)

/-- What is parsed of such a line holds no line feed. -/
theorem IsLine.parsed {raw : List UInt8} (line : IsLine raw) (connectionId requestId : String) :
    FreeOfNewline (parseCommand (String.ofList (decode raw)) (some requestId) (some connectionId)) :=
  parseCommand_newline (by rw [String.toList_ofList]; exact newline_strip_decode line)

theorem create_allTold (workerCount : Nat) (positive : 0 < workerCount) (file : List Char) :
    (create workerCount positive file).AllTold := by
  intro id w found
  rw [freshWorkers_store _ found]
  exact told_fresh _

/-- A successful append leaves the answer as it is. -/
theorem logResponse_appended (rt : LiteStoreRuntime ℚ) (request : CommandRequest)
    (response : CommandResponse) : (rt.logResponse .done request response).1 = response := by
  rw [logResponse, AofPersistence.appendRequest_done]
  split <;> rfl

/-- The text of the error, if an append raises one, is one line. -/
def OneLineError (append : LogOutcome) : Prop := ∀ text, append.result = .error text → '\n' ∉ text.toList

theorem oneLineError_done : OneLineError .done := by
  rintro text ⟨⟩

theorem logResponse_answer {append : LogOutcome} (quiet : OneLineError append) {request : CommandRequest}
    {response : CommandResponse} (sent : Sent response) (line : OneLiner response) :
    Sent (rt.logResponse append request response).1 ∧ OneLiner (rt.logResponse append request response).1 := by
  rcases logResponse_cases rt append request response with same | ⟨text, result, failed⟩
  · rw [same]
    exact ⟨sent, line⟩
  · rw [failed]
    refine ⟨.error .PERSISTENCE_ERROR _ request.requestId, ?_, speaks_of_none rfl rfl⟩
    rintro _ ⟨⟩
    exact newline_append (s := "Persistence append failed: ") (by decide) (quiet text result)

/-- A routed request whose arguments hold no line feed. -/
theorem AllTold.executeRouted (h : rt.AllTold) (clock : Clock ℚ) {request : CommandRequest}
    (free : ∀ a ∈ request.args, '\n' ∉ a.toList) :
    let r := Id.run (rt.executeRouted hash clock request)
    r.2.AllTold ∧ Sent r.1 ∧ OneLiner r.1 := by
  obtain ⟨w, passed, r, hosted, ran, answered, run⟩ :=
    executeRouted_ok hash (outcome_exact (rt.executeRouted hash clock request))
  have told := (h _ w hosted).drainDue ran
  obtain ⟨kept, speaks⟩ := executeCommand_told told free answered
  obtain ⟨answer, _⟩ := executeCommand_harmless answered
  intro routed
  simp only [routed, run]
  refine ⟨fun id v found => ?_, answer.sent, answer.message_newline, speaks⟩
  have lookup := Dict.get?_set rt.workers (rt.router.routeRequest hash request).workerId id
    { w with store := r.2 }
  rw [setWorker, lookup] at found
  split at found
  · cases found
    exact kept
  · exact h id v found

/-- A dispatched request whose arguments hold no line feed. -/
theorem AllTold.dispatchRequest (h : rt.AllTold) (clock : Clock ℚ) {append : LogOutcome}
    (quiet : OneLineError append) {request : CommandRequest} (free : ∀ a ∈ request.args, '\n' ∉ a.toList) :
    let r := Id.run (rt.dispatchRequest hash clock append request)
    r.2.AllTold ∧ Sent r.1 ∧ OneLiner r.1 := by
  obtain ⟨told, sent, line⟩ := h.executeRouted hash clock free
  intro dispatched
  simp only [dispatched, dispatchRequest_log]
  refine ⟨fun id w found => ?_, logResponse_answer quiet sent line⟩
  rw [(logResponse_frame _ _ _ _).1] at found
  exact told id w found

/-- The answer to a request can be written unless it is a number that is too long. -/
theorem AllValid.dispatched_writable (h : rt.AllValid) (clock : Clock ℚ) (request : CommandRequest) :
    (Id.run (rt.dispatchRequest hash clock .done request)).1.Writable ↔
      ¬ Unwritable request ((rt.chosen hash request).store.pass (clock 0)) (clock.drop 1) := by
  have valid := h _ _ (get?_worker rt (rt.router.routeRequest_mem hash request))
  rw [dispatchRequest_log, logResponse_appended, executeRouted_exact, StoreWorker.execute_exact]
  exact answer_writable_iff (pass_valid valid (clock 0)) (clock.drop 1) request

/-- **A line** is answered by one response without line feeds. -/
theorem AllTold.processCommandBytes (h : rt.AllTold) (clock : Clock ℚ) {raw : List UInt8}
    (line : IsLine raw) (connectionId requestId : String) :
    let r := Id.run (rt.processCommandBytes hash clock .done raw connectionId requestId)
    r.2.AllTold ∧ Sent r.1 ∧ OneLiner r.1 := by
  have free := line.parsed connectionId requestId
  unfold LiteStoreRuntime.processCommandBytes
  cases parsed : parseCommand (String.ofList (decode raw)) (some requestId) (some connectionId) with
  | error exc =>
    refine ⟨h, .error exc.code exc.message (some requestId), ?_, speaks_of_none rfl rfl⟩
    rintro _ ⟨⟩
    exact free.2 exc parsed
  | ok request => exact h.dispatchRequest hash clock oneLineError_done (free.1 request parsed)

/-- Its answer can be written if it is answerable. -/
theorem AllValid.processCommandBytes (h : rt.AllValid) (clock : Clock ℚ) (raw : List UInt8)
    (connectionId requestId : String) :
    let r := Id.run (rt.processCommandBytes hash clock .done raw connectionId requestId)
    r.2.AllValid ∧ (r.1.Writable ↔ rt.Answerable hash (.line raw connectionId requestId clock)) := by
  unfold LiteStoreRuntime.processCommandBytes Answerable
  cases parsed : parseCommand (String.ofList (decode raw)) (some requestId) (some connectionId) with
  | error exc =>
    refine ⟨h, iff_of_true (by rintro n ⟨⟩) fun request accepted => ?_⟩
    rw [parsed] at accepted
    cases accepted
  | ok request =>
    refine ⟨h.dispatchRequest hash clock .done request, (h.dispatched_writable hash clock request).trans
      ⟨fun short other accepted => ?_, fun each => each request parsed⟩⟩
    rw [parsed] at accepted
    cases accepted
    exact short

theorem AllTold.refresh (h : rt.AllTold) (clocks : Nat → Clock ℚ) (aggregated : Dict String String)
    (ids : List String) :
    (Id.run (rt.refreshMetricsSnapshot clocks aggregated ids)).2.AllTold :=
  (refresh_workers (P := fun _ w => Told (fun v => '\n' ∉ v.toList) w.store)
    (fun _ w t told => told.drainDue (outcome_exact (w.store.drainDue t))) h clocks aggregated ids).2.2

/-- **Every answer** of a run is sent without line feeds. -/
theorem AllTold.answers (h : rt.AllTold) {events : List LineEvent} (each : ∀ raw ∈ lines events, IsLine raw) :
    (rt.answers hash events).length = (lines events).length ∧
      ∀ response ∈ rt.answers hash events, Sent response ∧ OneLiner response := by
  induction events generalizing rt with
  | nil => exact ⟨rfl, by rintro _ ⟨⟩⟩
  | cons event events ih =>
    cases event with
    | line raw connectionId requestId clock =>
      have now := h.processCommandBytes hash clock (each raw (List.mem_cons_self)) connectionId requestId
      obtain ⟨count, rest⟩ := ih now.1 fun raw m => each raw (List.mem_cons_of_mem _ m)
      refine ⟨congrArg (· + 1) count, fun response m => ?_⟩
      rcases List.mem_cons.mp m with here | later
      · rw [here]
        exact now.2
      · exact rest response later
    | refresh clocks => exact ih (h.refresh clocks _ _) each

/-- **Every answer** of a run can be written exactly if every line is answerable where it comes. -/
theorem AllValid.answers (h : rt.AllValid) (events : List LineEvent) :
    (∀ response ∈ rt.answers hash events, response.Writable) ↔
      (serving hash).Along (Answerable hash) rt events := by
  induction events generalizing rt with
  | nil => exact iff_of_true (by rintro _ ⟨⟩) trivial
  | cons event events ih =>
    cases event with
    | line raw connectionId requestId clock =>
      obtain ⟨valid, here⟩ := h.processCommandBytes hash clock raw connectionId requestId
      exact List.forall_mem_cons.trans (and_congr here (ih valid))
    | refresh clocks =>
      exact (ih (h.refresh clocks Dict.empty rt.workers.keys)).trans (true_and _).symm.to_iff

/-! ## Clocks that do not go back -/

/-- The second of two lines is read no earlier than the first. -/
def Before : LineEvent → LineEvent → Prop
  | .line _ _ _ clock, .line _ _ _ clock' => ∀ i j, clock i ≤ clock' j
  | _, _ => True

/-- The key of a line that is accepted. -/
def key? (raw : List UInt8) (connectionId requestId : String) : Option String :=
  (parseCommand (String.ofList (decode raw)) (some requestId) (some connectionId)).toOption.bind fun request =>
    request.args.head?

/-- The deadlines on all workers are near `u`, and the keys among `names`. -/
def AllNear (u : ℚ) (names : List String) (rt : LiteStoreRuntime ℚ) : Prop :=
  ∀ id w, rt.workers.get? id = some w → w.store.Valid ∧ Near u (10 ^ maxStrDigits : Nat) names w.store

section Order

variable {hash} {u : ℚ} {names : List String}

theorem AllNear.mono (h : rt.AllNear u names) {u' : ℚ} {names' : List String} (later : u ≤ u')
    (more : names ⊆ names') : rt.AllNear u' names' :=
  fun id w found => ⟨(h id w found).1, (h id w found).2.mono later more⟩

theorem AllNear.executeRouted (h : rt.AllNear u names) {clock : Clock ℚ} (now : clock 2 ≤ u)
    {request : CommandRequest} (named : ∀ key ∈ request.args.head?, key ∈ names) :
    (Id.run (rt.executeRouted hash clock request)).2.AllNear u names := by
  intro id w found
  rw [executeRouted_workers] at found
  split at found
  · cases found
    obtain ⟨valid, near⟩ := h _ _ (get?_worker rt (rt.router.routeRequest_mem hash request))
    have passed := pass_valid valid (clock 0)
    rw [StoreWorker.execute_exact]
    exact ⟨executeCommand_valid passed request (clock.drop 1),
      (near.pass valid (clock 0)).executeCommand passed now named⟩
  · exact h id w found

/-- **A line** adds its key at most. -/
theorem AllNear.processCommandBytes (h : rt.AllNear u names) {clock : Clock ℚ} (now : clock 2 ≤ u)
    {raw : List UInt8} {connectionId requestId : String} (named : ∀ key ∈ key? raw connectionId requestId, key ∈ names) :
    (Id.run (rt.processCommandBytes hash clock .done raw connectionId requestId)).2.AllNear u names := by
  unfold LiteStoreRuntime.processCommandBytes
  cases parsed : parseCommand (String.ofList (decode raw)) (some requestId) (some connectionId) with
  | error exc => exact h
  | ok request =>
    rw [key?, parsed] at named
    intro id w found
    simp only [dispatchRequest_log, (logResponse_frame _ _ _ _).1] at found
    exact h.executeRouted now named id w found

/-- **While the clocks do not go back** every line is answerable, unless there are too many for their keys to be
counted. -/
theorem AllNear.along {events : List LineEvent}
    (near : ∀ raw connectionId requestId clock, .line raw connectionId requestId clock ∈ events →
      rt.AllNear (clock 2) names)
    (order : events.Pairwise Before) (few : names.length + (lines events).length < 10 ^ maxStrDigits) :
    (serving hash).Along (Answerable hash) rt events := by
  induction events generalizing rt names with
  | nil => trivial
  | cons event events ih =>
    obtain ⟨before, behind⟩ := List.pairwise_cons.mp order
    cases event with
    | line raw connectionId requestId clock =>
      have here := near raw connectionId requestId clock List.mem_cons_self
      have more : (lines (.line raw connectionId requestId clock :: events)).length = (lines events).length + 1 := rfl
      have next : ∀ raw' connectionId' requestId' clock', .line raw' connectionId' requestId' clock' ∈ events →
          (rt.serveEvent hash (.line raw connectionId requestId clock)).2.AllNear (clock' 2)
            (names ++ (key? raw connectionId requestId).toList) := by
        intro raw' connectionId' requestId' clock' m
        have later : clock 2 ≤ clock' 2 := before _ m 2 2
        apply (here.mono later (List.subset_append_left _ _)).processCommandBytes later
        exact fun key m => List.mem_append_right _ (Option.mem_toList.mpr m)
      refine ⟨fun request _ => ?_, ih next behind ?_⟩
      · obtain ⟨valid, held⟩ := here _ _ (get?_worker rt (rt.router.routeRequest_mem hash request))
        exact (held.pass valid (clock 0)).writable (by omega) le_rfl request
      · have one : (key? raw connectionId requestId).toList.length ≤ 1 := by
          cases key? raw connectionId requestId <;> simp
        rw [List.length_append]
        omega
    | refresh clocks =>
      refine ⟨trivial, ih (fun raw connectionId requestId clock m => ?_) behind few⟩
      have held := near raw connectionId requestId clock (List.mem_cons_of_mem _ m)
      exact (refresh_workers (fun _ _ t h => ⟨pass_valid h.1 t, h.2.pass h.1 t⟩) held clocks Dict.empty
        rt.workers.keys).2.2

theorem create_allNear (workerCount : Nat) (positive : 0 < workerCount) (file : List Char) (u : ℚ) :
    (create workerCount positive file).AllNear u [] := by
  intro id w found
  refine ⟨create_allValid workerCount positive file id w found, ?_⟩
  rw [freshWorkers_store _ found]
  exact ⟨by rintro k d ⟨⟩, by rintro k v ⟨⟩⟩

end Order

/-! ## The client -/

/-- The number of entry lines after a first line. -/
def entriesAfter : List Char → Nat
  | '*' :: digits => Nat.ofDigitChars 10 digits 0
  | _ => 0

/-- What a client gets that splits at CR LF and counts array entries. -/
def clientReads (output : List Char) : List (Option CommandResponse) :=
  (Crlf.messages entriesAfter (Crlf.splitPairs output).dropLast).map readLines

/-- Everything that is written to the client. -/
def transcript : List CommandResponse → Except SerializeError (List Char)
  | [] => return []
  | response :: responses => do
    let text ← serializeResponse response
    let rest ← transcript responses
    return text.toList ++ rest

/-- An array says how many entries follow, and no other first line looks like one. -/
theorem responseLines_whole {response : CommandResponse} (sent : Sent response) :
    Crlf.Whole entriesAfter (responseLines response) := by
  cases sent with
  | array values requestId =>
    refine ⟨_, _, rfl, ?_⟩
    rw [List.length_map, Nat.toString_eq_repr, Nat.toList_repr]
    exact Nat.ofDigitChars_ten_toDigits.symm
  | _ => exact ⟨_, [], rfl, rfl⟩

theorem length_responseLines {response : CommandResponse} (sent : Sent response) :
    (responseLines response).length = if response.kind = .ARRAY then response.values.length + 1 else 1 := by
  cases sent <;> simp [responseLines]

/-- What is written is the lines of all responses. -/
theorem transcript_framed {responses : List CommandResponse} (sent : ∀ r ∈ responses, Sent r)
    (short : ∀ r ∈ responses, r.Writable) :
    transcript responses = .ok (Crlf.framed (responses.map responseLines).flatten) := by
  induction responses with
  | nil => rfl
  | cons response responses ih =>
    obtain ⟨text, written, framed⟩ :=
      serializeResponse_lines (sent response List.mem_cons_self) (short response List.mem_cons_self)
    rw [transcript, written, ih (fun r m => sent r (List.mem_cons_of_mem _ m))
      fun r m => short r (List.mem_cons_of_mem _ m)]
    show Except.ok (text.toList ++ _) = _
    rw [framed, List.map_cons, List.flatten_cons, Crlf.framed_append]

/-- A text of them all is one of each. -/
theorem writable_of_transcript {responses : List CommandResponse} (sent : ∀ r ∈ responses, Sent r)
    {output : List Char} (written : transcript responses = .ok output) : ∀ r ∈ responses, r.Writable := by
  induction responses generalizing output with
  | nil => exact List.forall_mem_nil _
  | cons response responses ih =>
    rw [transcript] at written
    cases first : serializeResponse response with
    | error exc =>
      rw [first] at written
      cases written
    | ok text =>
      cases rest : transcript responses with
      | error exc =>
        rw [first, rest] at written
        cases written
      | ok others =>
        refine List.forall_mem_cons.mpr ⟨?_, ih (fun r m => sent r (List.mem_cons_of_mem _ m)) rest⟩
        exact (serializeResponse_ok_iff (sent response List.mem_cons_self)).mp ⟨text, first⟩

/-- **The client** gets the responses back, each once and in order. -/
theorem clientReads_transcript {responses : List CommandResponse}
    (each : ∀ r ∈ responses, Sent r ∧ OneLiner r) (short : ∀ r ∈ responses, r.Writable) :
    ∃ output, transcript responses = .ok output ∧
      clientReads output = responses.map fun r => some (asRead r) := by
  refine ⟨_, transcript_framed (fun r m => (each r m).1) short, ?_⟩
  have free : ∀ line ∈ (responses.map responseLines).flatten, '\n' ∉ line := by
    intro line m
    obtain ⟨lines, there, m⟩ := List.mem_flatten.mp m
    obtain ⟨r, sent, rfl⟩ := List.mem_map.mp there
    exact newline_responseLines (each r sent).1 (each r sent).2 line m
  have whole : ∀ message ∈ responses.map responseLines, Crlf.Whole entriesAfter message := by
    intro message m
    obtain ⟨r, there, rfl⟩ := List.mem_map.mp m
    exact responseLines_whole (each r there).1
  rw [clientReads, Crlf.splitPairs_framed free, List.dropLast_concat, Crlf.messages_flatten _ whole,
    List.map_map]
  exact List.map_congr_left fun r m => readLines_responseLines (each r m).1

/-- Each line is answered by one response; its text has one CR LF, or one for each entry more if it is
an array, the last of them at the end; and the client gets the responses back. -/
structure Framed (lines : List (List UInt8)) (responses : List CommandResponse) : Prop where
  answered : responses.length = lines.length
  texts : ∀ response ∈ responses, ∃ text, serializeResponse response = .ok text ∧
    Crlf.countPairs text.toList = (if response.kind = .ARRAY then response.values.length + 1 else 1) ∧
    ['\r', '\n'] <:+ text.toList
  read : ∃ output, transcript responses = .ok output ∧
    clientReads output = responses.map fun r => some (asRead r)

/-- **The framing** of the output: whatever the lines hold, only a number that is too long can break it, and
while the clocks do not go back none is. -/
theorem framing_iff (hash : String → Nat) (workerCount : Nat) (positive : 0 < workerCount)
    (clocks : Nat → Clock ℚ) (events : List LineEvent) (each : ∀ raw ∈ lines events, IsLine raw) :
    let rt := started hash workerCount positive [] clocks
    (Framed (lines events) (rt.answers hash events) ↔ (serving hash).Along (Answerable hash) rt events) ∧
      (events.Pairwise Before → (lines events).length < 10 ^ maxStrDigits →
        Framed (lines events) (rt.answers hash events)) := by
  have fresh : started hash workerCount positive [] clocks = create workerCount positive [] := rfl
  have begun : (started hash workerCount positive [] clocks).AllTold :=
    fresh ▸ create_allTold workerCount positive []
  have valid : (started hash workerCount positive [] clocks).AllValid :=
    fresh ▸ create_allValid workerCount positive []
  obtain ⟨count, sent⟩ := begun.answers hash each
  intro rt
  suffices exact : Framed (lines events) (rt.answers hash events) ↔ (serving hash).Along (Answerable hash) rt events by
    refine ⟨exact, fun order few => exact.mpr ?_⟩
    apply AllNear.along (fun _ _ _ clock _ => fresh ▸ create_allNear workerCount positive [] (clock 2)) order
    rwa [List.length_nil, Nat.zero_add]
  rw [← valid.answers hash events]
  refine ⟨fun framed response m => ?_, fun short => ⟨count, fun response m => ?_, clientReads_transcript sent short⟩⟩
  · obtain ⟨text, written, _⟩ := framed.texts response m
    exact (serializeResponse_ok_iff (sent response m).1).mp ⟨text, written⟩
  obtain ⟨text, written, framed⟩ := serializeResponse_lines (sent response m).1 (short response m)
  have free := newline_responseLines (sent response m).1 (sent response m).2
  refine ⟨text, written, ?_, ?_⟩
  · rw [framed, Crlf.countPairs_framed free, length_responseLines (sent response m).1]
  · rw [framed]
    apply Crlf.framed_suffix
    intro none
    obtain ⟨line, lines, some, _⟩ := responseLines_whole (sent response m).1
    rw [none] at some
    cases some

/-- `SET k a\rb`, a byte that is no UTF-8, a refresh and `KEYS` without its line feed. -/
def mixedLines : List LineEvent :=
  [.line [83, 69, 84, 32, 107, 32, 97, 13, 98, 10] "c" "c:1" (Clock.still 0), .line [255, 10] "c" "c:2" (Clock.still 1),
   .refresh fun _ => Clock.still 2, .line [75, 69, 89, 83] "c" "c:3" (Clock.still 3)]

theorem mixed_lines_framed :
    Framed (lines mixedLines) ((started Sha256.leading 1 Nat.one_pos [] fun _ => Clock.still 0).answers
      Sha256.leading mixedLines) := by
  refine (framing_iff Sha256.leading 1 Nat.one_pos (fun _ => Clock.still 0) mixedLines ?_).2 ?_ ?_
  · intro raw m
    have listed : raw ∈ [[83, 69, 84, 32, 107, 32, 97, 13, 98, 10], [255, 10], [75, 69, 89, 83]] := m
    simp only [List.mem_cons, List.not_mem_nil, or_false] at listed
    rcases listed with rfl | rfl | rfl
    · exact ⟨[83, 69, 84, 32, 107, 32, 97, 13, 98], by decide, .inl rfl⟩
    · exact ⟨[255], by decide, .inl rfl⟩
    · exact ⟨[75, 69, 89, 83], by decide, .inr ⟨rfl, by decide⟩⟩
  · simp [mixedLines, Before, Clock.still]
  · exact lt_of_lt_of_le (show 3 < 10 ^ 1 by decide) (Nat.pow_le_pow_right (by decide) (by decide))

/-! ## A number that is too long -/

/-- The most seconds that `int` reads. -/
def nines : List Char := List.replicate maxStrDigits '9'

theorem nines_parsed (requestId clientId : Option String) :
    parseCommand (String.ofList ("EXPIRE k ".toList ++ nines ++ ['\n'])) requestId clientId =
      .ok ⟨.EXPIRE, ["k", String.ofList nines], requestId, clientId⟩ := by
  apply parseCommand_expire
  · exact fun none => absurd (List.replicate_eq_nil_iff _ |>.mp none) (by decide)
  · intro c m
    rw [List.eq_of_mem_replicate m]
    decide
  · exact List.forall_mem_singleton.mpr (by decide)

/-- A line of `EXPIRE`, and what serving it leaves. -/
theorem serveEvent_expire (rt : LiteStoreRuntime ℚ) {raw : List UInt8} {connectionId requestId key secondsRaw : String}
    {n : Int} (clock : Clock ℚ)
    (parsed : parseCommand (String.ofList (decode raw)) (some requestId) (some connectionId) =
      .ok ⟨.EXPIRE, [key, secondsRaw], some requestId, some connectionId⟩)
    (seconds : parseTtlSeconds secondsRaw = some n) :
    let request : CommandRequest := ⟨.EXPIRE, [key, secondsRaw], some requestId, some connectionId⟩
    let w := rt.chosen hash request
    let timed := Id.run ((w.store.pass (clock 0)).expire (clock.drop 1) key n)
    (rt.serveEvent hash (.line raw connectionId requestId clock)).2 =
      ((rt.setWorker (rt.router.routeRequest hash request).workerId { w with store := timed.2 }).logResponse .done
        request (integerResponse request (if timed.1 then 1 else 0))).2 := by
  intro request w timed
  have executed (s : MemoryStore ℚ) (clock : Clock ℚ) : Id.run (executeCommand request s clock) =
      (integerResponse request (if (Id.run (s.expire clock key n)).1 then 1 else 0),
        (Id.run (s.expire clock key n)).2) := by
    simp only [request, executeCommand, seconds]
    rfl
  simp only [serveEvent, processCommandBytes, parsed]
  rw [dispatchRequest_log, executeRouted_exact, StoreWorker.execute_exact, executed]

/-- A deadline is set when the clock reads `1`, and asked for when it reads `0`. -/
def farLines : List LineEvent :=
  [.line (encode "SET k v\n".toList) "c" "c:1" (Clock.still 1),
   .line (encode ("EXPIRE k ".toList ++ nines ++ ['\n'])) "c" "c:2" (Clock.still 1),
   .line (encode "TTL k\n".toList) "c" "c:3" (Clock.still 0)]

theorem farLines_answer :
    { kind := .INTEGER, integer := some (10 ^ maxStrDigits), requestId := some "c:3" } ∈
      (started Sha256.leading 1 Nat.one_pos [] fun _ => Clock.still 0).answers Sha256.leading farLines := by
  obtain ⟨first, served⟩ : ∃ first, first = ((started Sha256.leading 1 Nat.one_pos [] fun _ => Clock.still 0).serveEvent
    Sha256.leading (.line (encode "SET k v\n".toList) "c" "c:1" (Clock.still 1))).2 := ⟨_, rfl⟩
  have parsed : parseCommand (String.ofList (decode (encode ("EXPIRE k ".toList ++ nines ++ ['\n']))))
      (some "c:2") (some "c") = .ok ⟨.EXPIRE, ["k", String.ofList nines], some "c:2", some "c"⟩ := by
    rw [decode_encode]
    exact nines_parsed _ _
  have second := serveEvent_expire Sha256.leading first (Clock.still 1) parsed (int?_nines (by decide) le_rfl)
  refine List.mem_append_right _ (List.mem_append_right _ (List.mem_append_left _ ?_))
  show _ ∈ ((((started Sha256.leading 1 Nat.one_pos [] fun _ => Clock.still 0).serveEvent Sha256.leading
    (.line (encode "SET k v\n".toList) "c" "c:1" (Clock.still 1))).2.serveEvent Sha256.leading
    (.line (encode ("EXPIRE k ".toList ++ nines ++ ['\n'])) "c" "c:2" (Clock.still 1))).2.serveEvent Sha256.leading
    (.line (encode "TTL k\n".toList) "c" "c:3" (Clock.still 0))).1.toList
  rw [← served, second, served]
  decide +kernel

/-- The last line is left without an answer. -/
theorem far_ttl_breaks_framing :
    ¬ ∀ (hash : String → Nat) (workerCount : Nat) (positive : 0 < workerCount) (clocks : Nat → Clock ℚ)
      (events : List LineEvent), (∀ raw ∈ lines events, IsLine raw) →
      Framed (lines events) ((started hash workerCount positive [] clocks).answers hash events) := by
  intro claim
  have isLine {text : List Char} (free : '\n' ∉ text) : IsLine (encode (text ++ ['\n'])) :=
    ⟨encode text, newline_encode free, .inl (encode_append _ _)⟩
  have each : ∀ raw ∈ lines farLines, IsLine raw := by
    have listed : lines farLines = [encode ("SET k v".toList ++ ['\n']),
      encode ("EXPIRE k ".toList ++ nines ++ ['\n']), encode ("TTL k".toList ++ ['\n'])] := rfl
    rw [listed]
    refine List.forall_mem_cons.mpr ⟨isLine (by decide), List.forall_mem_cons.mpr ⟨isLine fun m => ?_,
      List.forall_mem_singleton.mpr (isLine (by decide))⟩⟩
    rcases List.mem_append.mp m with verb | digit
    · exact absurd verb (by decide)
    · exact absurd (List.eq_of_mem_replicate digit) (by decide)
  have framed := claim Sha256.leading 1 Nat.one_pos (fun _ => Clock.still 0) farLines each
  obtain ⟨text, written, _⟩ := framed.texts _ farLines_answer
  have long : str? (10 ^ maxStrDigits) = none := str?_none (by decide +kernel)
  simp only [serializeResponse, long] at written
  cases written

end LiteStoreRuntime
end LiteStore
