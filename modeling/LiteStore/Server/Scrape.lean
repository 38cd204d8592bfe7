import LiteStore.Lib.Http
import LiteStore.Server.Serial

/-!
# The metrics port

`_handle_metrics_http` of `src/server.py` beside the handlers of the commands. It reads a request line and
header lines up to an empty one, each when it has arrived, and then answers with the page of that moment.
The page a client reads from the answer counts the requests that were accepted up to then. Other scrapers
change nothing, so there is one.
-/

namespace LiteStore
set_option autoImplicit false
open Py

structure HttpResponse where
  statusCode : Nat
  contentType : String
  body : String

/-- `MetricsHttpEndpoint.handle_request`; no response is an exception of the rendering. -/
def handleRequest (metrics : MetricsCollector) (path : String) : Option HttpResponse :=
  if path ≠ "/metrics" then some ⟨404, "text/plain; charset=utf-8", "not found\n"⟩
  else metrics.renderPrometheus.map fun body => ⟨200, "text/plain; version=0.0.4; charset=utf-8", body⟩

/-- `_reason_phrase`. -/
def reasonPhrase (statusCode : Nat) : String :=
  if statusCode = 200 then "OK" else if statusCode = 404 then "Not Found" else "Error"

/-- The path in the request line. -/
def requestPath (requestLine : List UInt8) : String :=
  if requestLine = [] then "/"
  else match split (strip (decode requestLine)) with
    | _ :: path :: _ => String.ofList path
    | _ => "/"

/-- What is written for a response. -/
def httpBytes (response : HttpResponse) : List UInt8 :=
  let payload := encode response.body.toList
  let headers :=
    [s!"HTTP/1.1 {response.statusCode} {reasonPhrase response.statusCode}",
      s!"Content-Type: {response.contentType}", s!"Content-Length: {payload.length}", "Connection: close", "", ""]
  encode ("\r\n".intercalate headers).toList ++ payload

/-- Where the handler is. -/
inductive ScraperPhase where
  | requestLine
  | headers (path : String)
  | done
  | failed

/-- A connection to the metrics port and its handler. -/
structure Scraper where
  reader : LineReader UInt8
  phase : ScraperPhase
  written : List UInt8

namespace Scraper

def opened : Scraper := ⟨.fresh, .requestLine, []⟩

/-- Bytes still reach the reader. -/
def listens (c : Scraper) : Bool :=
  match c.phase with
  | .requestLine | .headers _ => !c.reader.eof
  | .done | .failed => false

def dataReceived (c : Scraper) (data : List UInt8) : Scraper :=
  if c.listens then { c with reader := c.reader.feed data } else c

def eofReceived (c : Scraper) : Scraper := { c with reader := c.reader.feedEof }

/-- The end of the handler. -/
def respond (c : Scraper) (metrics : MetricsCollector) (path : String) : Scraper :=
  match handleRequest metrics path with
  | none => { c with phase := .failed }
  | some response => { c with phase := .done, written := httpBytes response }

/-- The handler reads a line. -/
def round (c : Scraper) (metrics : MetricsCollector) : Scraper :=
  match c.phase with
  | .done | .failed => c
  | .requestLine =>
    match c.reader.readline 10 readLimit with
    | (.waits, _) => c
    | (.overrun, reader) => { c with reader, phase := .failed }
    | (.line raw, reader) => { c with reader, phase := .headers (requestPath raw) }
  | .headers path =>
    match c.reader.readline 10 readLimit with
    | (.waits, _) => c
    | (.overrun, reader) => { c with reader, phase := .failed }
    | (.line raw, reader) =>
      if raw ∈ [[], [13, 10], [10]] then { c with reader }.respond metrics path else { c with reader }

end Scraper

/-- The server and a scraper. -/
structure Service where
  server : Server
  scraper : Scraper

inductive ServiceEvent where
  | server (event : ServerEvent)
  | dataReceived (data : List UInt8)
  | eofReceived
  | round

namespace Service

variable (hash : String → Nat) (rowHash : Nat → String → Nat)

def machine : Machine Service ServiceEvent Unit where
  step
  | s, .server event => ((), { s with server := ((Server.machine hash rowHash).step s.server event).2 })
  | s, .dataReceived data => ((), { s with scraper := s.scraper.dataReceived data })
  | s, .eofReceived => ((), { s with scraper := s.scraper.eofReceived })
  | s, .round => ((), { s with scraper := s.scraper.round s.server.backend.metrics })

/-- The events of the server. -/
def serverEvents (events : List ServiceEvent) : List ServerEvent :=
  events.filterMap fun event =>
    match event with
    | .server event => some event
    | _ => none

/-- The bytes that an event brings to the scraper. -/
def arrives (s : Service) : ServiceEvent → List UInt8
  | .dataReceived data => if s.scraper.listens then data else []
  | _ => []

def arrived (s : Service) (events : List ServiceEvent) : List UInt8 :=
  (machine hash rowHash).collect arrives s events

end Service

/-! ## The answer -/

/-- The answer of the metrics port as a client reads it. -/
def scrapeResponse (statusCode : Nat) (contentType : String) (body : List Char) : Http.Response where
  statusCode := statusCode
  reason := (reasonPhrase statusCode).toList
  fields := [("Content-Type".toList, contentType.toList),
    (Http.contentLength, Nat.toDigits 10 (encode body).length), ("Connection".toList, "close".toList)]
  body := encode body

theorem httpBytes_eq (response : HttpResponse) :
    httpBytes response =
      (scrapeResponse response.statusCode response.contentType response.body.toList).bytes := by
  have pair : "\r\n".toList = ['\r', '\n'] := by decide
  have version : "HTTP/1.1 ".toList = Http.version := String.toList_ofList
  have kind : "Content-Type: ".toList = "Content-Type".toList ++ [':', ' '] := by decide +kernel
  have length : "Content-Length: ".toList = Http.contentLength ++ [':', ' '] := by decide +kernel
  have close : "Connection: close".toList = "Connection".toList ++ ':' :: ' ' :: "close".toList := by decide +kernel
  have blank : " ".toList = [' '] := by decide
  rw [httpBytes, Http.Response.bytes]
  rw [String.toList_intercalate]
  simp only [pair, List.map_cons, List.map_nil, List.intercalate_cons_cons, List.intercalate_singleton,
    String.toList_append, Http.Response.head, scrapeResponse, Http.statusLine, Http.fieldLine, Crlf.framed,
    List.flatMap_cons, List.flatMap_nil, List.cons_append, List.nil_append, toString_text, version, kind, length,
    close, blank, Nat.toString_eq_repr, Nat.toList_repr, List.append_assoc]
  simp

theorem scrapeResponse_wellFormed (statusCode : Nat) {contentType : String} (line : '\n' ∉ contentType.toList)
    (trimmed : contentType.toList.head? ≠ some ' ') (body : List Char) :
    (scrapeResponse statusCode contentType body).WellFormed where
  reason := by
    show '\n' ∉ (reasonPhrase statusCode).toList
    unfold reasonPhrase
    split
    · decide
    · split <;> decide
  fields := by
    have digit : ∀ c ∈ Nat.toDigits 10 (encode body).length, c.isDigit = true := fun c m =>
      Nat.isDigit_of_mem_toDigits (by decide) (by decide) m
    have name {t : List Char} (plain : (t.all fun c => c ≠ ':' ∧ c ≠ '\n') = true) :
        ∀ c ∈ t, c ≠ ':' ∧ c ≠ '\n' := fun c m => of_decide_eq_true (List.all_eq_true.mp plain c m)
    have kind := name (t := "Content-Type".toList) (by decide)
    have length := name (t := Http.contentLength) (by decide)
    have close := name (t := "Connection".toList) (by decide)
    simp only [scrapeResponse, List.forall_mem_cons]
    refine ⟨⟨kind, line, trimmed⟩, ⟨length, fun m => ?_, fun blank => ?_⟩, ⟨close, by decide, by decide⟩,
      List.forall_mem_nil _⟩
    · exact absurd (digit _ m) (by decide)
    · exact absurd (digit _ (List.mem_of_head? blank)) (by decide)
  length := by
    have other : "Content-Type".toList ≠ Http.contentLength := by decide
    rw [scrapeResponse, List.find?_cons_of_neg (by rwa [decide_eq_true_eq]),
      List.find?_cons_of_pos (by rw [decide_eq_true_eq])]

/-! ## One scraper -/

/-- The path of the stream's first line, whatever else arrives. -/
def PathOf (eof : Bool) (arrived : List UInt8) (path : String) : Prop :=
  ∀ more, (eof = true → more = []) → requestPath ((LineReader.chop 10 (arrived ++ more)).headD []) = path

/-- A scraper to which these bytes came; `Answered` says what it may have been answered for a path. -/
def Scraper.Explained (Answered : String → List UInt8 → Prop) (arrived : List UInt8) (c : Scraper) : Prop :=
  match c.phase with
  | .requestLine => c.reader.buffer = arrived ∧ c.written = []
  | .headers path => PathOf c.reader.eof arrived path ∧ c.reader.buffer <:+ arrived ∧ c.written = []
  | .done => Answered (requestPath ((LineReader.chop 10 arrived).headD [])) c.written
  | .failed => (∃ rest, rest <:+ arrived ∧ LineReader.Overlong 10 readLimit rest) ∧ c.written = []

section Steps

variable {Answered : String → List UInt8 → Prop} {arrived : List UInt8} {c : Scraper}

theorem Scraper.Explained.dataReceived (h : c.Explained Answered arrived) (data : List UInt8) :
    (c.dataReceived data).Explained Answered (arrived ++ if c.listens then data else []) := by
  unfold Scraper.dataReceived
  cases listens : c.listens with
  | false =>
    simp only [Bool.false_eq_true, if_false, List.append_nil]
    exact h
  | true =>
    simp only [if_true]
    obtain ⟨reader, phase, written⟩ := c
    cases phase with
    | requestLine => exact ⟨congrArg (· ++ data) h.1, h.2⟩
    | headers path =>
      obtain ⟨named, ⟨front, split⟩, unwritten⟩ := h
      have more : reader.eof = false := by simpa [Scraper.listens] using listens
      refine ⟨fun later _ => ?_, ⟨front, ?_⟩, unwritten⟩
      · rw [List.append_assoc]
        exact named (data ++ later) fun ended => by rw [more] at ended; cases ended
      · show front ++ (reader.buffer ++ data) = arrived ++ data
        rw [← List.append_assoc, split]
    | done => simp [Scraper.listens] at listens
    | failed => simp [Scraper.listens] at listens

theorem Scraper.Explained.eofReceived (h : c.Explained Answered arrived) :
    c.eofReceived.Explained Answered arrived := by
  obtain ⟨reader, phase, written⟩ := c
  cases phase with
  | headers path =>
    obtain ⟨named, rest, unwritten⟩ := h
    exact ⟨fun more last => named more fun _ => last rfl, rest, unwritten⟩
  | _ => exact h

/-- The answer at the end of the handler. -/
theorem Scraper.Explained.respond {path : String} (reader : LineReader UInt8) (named : PathOf reader.eof arrived path)
    {metrics : MetricsCollector} {response : HttpResponse} (handled : handleRequest metrics path = some response)
    (answered : Answered path (httpBytes response)) (written : List UInt8) :
    (Scraper.respond ⟨reader, .headers path, written⟩ metrics path).Explained Answered arrived := by
  have now := named [] fun _ => rfl
  rw [List.append_nil] at now
  rw [Scraper.respond, handled]
  show Answered _ (httpBytes response)
  rwa [now]

/-- **One round**, if the page can be rendered. -/
theorem Scraper.Explained.round (h : c.Explained Answered arrived) {metrics : MetricsCollector}
    (handled : ∀ path, ∃ response, handleRequest metrics path = some response ∧ Answered path (httpBytes response)) :
    (c.round metrics).Explained Answered arrived := by
  obtain ⟨reader, phase, written⟩ := c
  cases phase with
  | done => exact h
  | failed => exact h
  | requestLine =>
    obtain ⟨buffered, unwritten⟩ := h
    have buffered : reader.buffer = arrived := buffered
    rcases reader.readline_cases 10 readLimit with ⟨body, rest, split, free, _, read⟩ |
      ⟨free, ended, read⟩ | ⟨long, read⟩ | ⟨_, _, read⟩
    · simp only [Scraper.round, read]
      rw [buffered] at split
      refine ⟨fun more _ => ?_, ⟨body ++ [10], by simp [split]⟩, unwritten⟩
      rw [split, List.append_assoc, List.cons_append, LineReader.chop_line free]
      rfl
    · simp only [Scraper.round, read]
      refine ⟨fun more last => ?_, List.nil_suffix, unwritten⟩
      rw [last ended, List.append_nil, ← buffered]
      by_cases none : reader.buffer = []
      · rw [none]
        rfl
      · rw [LineReader.chop_last free none]
        rfl
    · have whole : reader.readline 10 readLimit = (.overrun, (reader.readline 10 readLimit).2) := by rw [← read]
      simp only [Scraper.round]
      rw [whole]
      exact ⟨⟨reader.buffer, buffered ▸ List.suffix_rfl, long⟩, unwritten⟩
    · simp only [Scraper.round, read]
      exact ⟨buffered, unwritten⟩
  | headers path =>
    obtain ⟨named, rest, unwritten⟩ := h
    obtain ⟨response, handles, answered⟩ := handled path
    rcases reader.readline_cases 10 readLimit with ⟨body, left, split, free, _, read⟩ |
      ⟨free, ended, read⟩ | ⟨long, read⟩ | ⟨_, _, read⟩
    · simp only [Scraper.round, read]
      split
      · exact Scraper.Explained.respond { reader with buffer := left } named handles answered written
      · refine ⟨named, List.IsSuffix.trans ⟨body ++ [10], ?_⟩ rest, unwritten⟩
        rw [split]
        simp
    · simp only [Scraper.round, read]
      split
      · exact Scraper.Explained.respond { reader with buffer := [] } named handles answered written
      · exact ⟨named, List.nil_suffix, unwritten⟩
    · have whole : reader.readline 10 readLimit = (.overrun, (reader.readline 10 readLimit).2) := by rw [← read]
      simp only [Scraper.round]
      rw [whole]
      exact ⟨⟨reader.buffer, rest, long⟩, unwritten⟩
    · simp only [Scraper.round, read]
      exact ⟨named, rest, unwritten⟩

end Steps

theorem Scraper.Explained.mono {Answered Answered' : String → List UInt8 → Prop} {arrived : List UInt8} {c : Scraper}
    (h : c.Explained Answered arrived) (imp : ∀ path written, Answered path written → Answered' path written) :
    c.Explained Answered' arrived := by
  obtain ⟨reader, phase, written⟩ := c
  cases phase with
  | done => exact imp _ _ h
  | _ => exact h

/-! ## The page of a run -/

/-- The counters of the shared state have counted the requests that were accepted. -/
theorem Backend.Counted.tallies {rowHash : Nat → String → Nat} {b : Backend} {observed : List Observation}
    (h : b.Counted rowHash observed) : MetricsCollector.Tallies observed b.metrics := by
  obtain ⟨c, done, same⟩ := h
  rw [same]
  exact (MetricsCollector.init_tallies.observeAll done).beside c.hotKeyTracker _

namespace Service

variable {hash : String → Nat} {rowHash : Nat → String → Nat}

/-- The answer for the path at some moment of the run. -/
def Answered (hash : String → Nat) (rowHash : Nat → String → Nat) (start : Server) (events : List ServiceEvent)
    (path : String) (written : List UInt8) : Prop :=
  ∃ earlier later response, events = earlier ++ .round :: later ∧
    handleRequest ((Server.machine hash rowHash).after start (serverEvents earlier)).backend.metrics path =
      some response ∧ written = httpBytes response

/-- The page of a state that has counted can be rendered. -/
theorem handleRequest_counted {b : Backend} {observed : List Observation} (h : b.Counted rowHash observed)
    (path : String) : ∃ response, handleRequest b.metrics path = some response := by
  unfold handleRequest
  split
  · exact ⟨_, rfl⟩
  · obtain ⟨text, rendered, _⟩ := MetricsCollector.read_renderPrometheus h.tallies.printable
    rw [rendered]
    exact ⟨_, rfl⟩

variable (hash rowHash) in
/-- A run of the server and the scraper. -/
theorem run_scraper (workerCount : Nat) (positive : 0 < workerCount) (file : List Char)
    (clocks snapshotClocks : Nat → Clock ℚ) (events : List ServiceEvent) :
    let server := Server.started hash workerCount positive file clocks snapshotClocks
    let start : Service := ⟨server, .opened⟩
    let s := (machine hash rowHash).after start events
    s.server = (Server.machine hash rowHash).after server (serverEvents events) ∧
      s.scraper.Explained (Answered hash rowHash server events) (start.arrived hash rowHash events) := by
  intro server start
  induction events using List.reverseRecOn with
  | nil => exact ⟨rfl, rfl, rfl⟩
  | append_singleton events event ih =>
    obtain ⟨same, told⟩ := ih
    have longer (path : String) (written : List UInt8) (answered : Answered hash rowHash server events path written) :
        Answered hash rowHash server (events ++ [event]) path written := by
      obtain ⟨earlier, later, response, split, handled⟩ := answered
      exact ⟨earlier, later ++ [event], response, by rw [split]; simp, handled⟩
    have told := told.mono longer
    intro s
    have last : s = ((machine hash rowHash).step ((machine hash rowHash).after start events) event).2 :=
      Machine.after_append ..
    have bytes : start.arrived hash rowHash (events ++ [event]) =
        start.arrived hash rowHash events ++ ((machine hash rowHash).after start events).arrives event := by
      rw [Service.arrived, Machine.collect_append]
      exact congrArg _ (List.append_nil _)
    rw [last, bytes]
    have served : serverEvents (events ++ [event]) = serverEvents events ++ serverEvents [event] :=
      List.filterMap_append
    rw [served, Machine.after_append, ← same]
    cases event with
    | server event =>
      refine ⟨rfl, ?_⟩
      show Scraper.Explained _ (_ ++ []) _
      rw [List.append_nil]
      exact told
    | dataReceived data => exact ⟨rfl, told.dataReceived data⟩
    | eofReceived =>
      refine ⟨rfl, ?_⟩
      show Scraper.Explained _ (_ ++ []) _
      rw [List.append_nil]
      exact told.eofReceived
    | round =>
      refine ⟨rfl, ?_⟩
      show Scraper.Explained _ (_ ++ []) _
      rw [List.append_nil]
      refine told.round fun path => ?_
      have h := Server.run_explained hash rowHash workerCount positive file clocks snapshotClocks (serverEvents events)
      have counted := h.counted
      rw [← same] at counted
      obtain ⟨response, handled⟩ := handleRequest_counted counted path
      exact ⟨response, handled, events, [], response, rfl, by rwa [← same], rfl⟩

/-- What a client reads from the metrics port in a run. -/
structure Scraped (hash : String → Nat) (rowHash : Nat → String → Nat) (start : Service)
    (events : List ServiceEvent) : Prop where
  /-- Once the handler has answered: under `/metrics` there is a page that counts exactly the requests that the
  server accepted before one of the handler's rounds, and under any other path nothing. -/
  answered : ((machine hash rowHash).after start events).scraper.phase = .done →
    ∃ earlier later, events = earlier ++ .round :: later ∧
      let written := ((machine hash rowHash).after start events).scraper.written
      if requestPath ((LineReader.chop 10 (start.arrived hash rowHash events)).headD []) = "/metrics" then
        ∃ page samples,
          Http.read written = some (scrapeResponse 200 "text/plain; version=0.0.4; charset=utf-8" page, []) ∧
          Exposition.readPage page = some samples ∧
          MetricsCollector.CumulativeHistogram
            (Backend.observations (start.server.jobs hash rowHash (serverEvents earlier))) samples
      else Http.read written = some (scrapeResponse 404 "text/plain; charset=utf-8" "not found\n".toList, [])
  /-- Before that nothing is written. -/
  silent : ((machine hash rowHash).after start events).scraper.phase ≠ .done →
    ((machine hash rowHash).after start events).scraper.written = []
  /-- Only a line that is too long keeps a client from its answer. -/
  failed : ((machine hash rowHash).after start events).scraper.phase = .failed →
    ∃ rest, rest <:+ start.arrived hash rowHash events ∧ LineReader.Overlong 10 readLimit rest

/-- **A scrape counts the requests.** Whatever the server does meanwhile, and in whatever pieces the bytes of
the scraper arrive. -/
theorem scrape_counts (hash : String → Nat) (rowHash : Nat → String → Nat) (workerCount : Nat)
    (positive : 0 < workerCount) (file : List Char) (clocks snapshotClocks : Nat → Clock ℚ)
    (events : List ServiceEvent) :
    Scraped hash rowHash ⟨Server.started hash workerCount positive file clocks snapshotClocks, .opened⟩ events := by
  obtain ⟨_, told⟩ := run_scraper hash rowHash workerCount positive file clocks snapshotClocks events
  unfold Scraper.Explained at told
  constructor
  · intro done
    rw [done] at told
    obtain ⟨earlier, later, response, split, handled, written⟩ := told
    refine ⟨earlier, later, split, ?_⟩
    have h := Server.run_explained hash rowHash workerCount positive file clocks snapshotClocks (serverEvents earlier)
    rw [handleRequest] at handled
    dsimp only
    rw [written, httpBytes_eq, ← List.append_nil (Http.Response.bytes _)]
    split
    · rename_i found
      rw [if_neg (not_not.mpr found)] at handled
      obtain ⟨page, rendered, rfl⟩ := Option.map_eq_some_iff.mp handled
      obtain ⟨text, same, read⟩ := MetricsCollector.read_renderPrometheus h.counted.tallies.printable
      obtain rfl : text = page := Option.some.inj (same.symm.trans rendered)
      have line : '\n' ∉ "text/plain; version=0.0.4; charset=utf-8".toList := by decide
      have trimmed : "text/plain; version=0.0.4; charset=utf-8".toList.head? ≠ some ' ' := by decide
      exact ⟨text.toList, _, Http.read_bytes (scrapeResponse_wellFormed 200 line trimmed _) [], read,
        h.counted.tallies.cumulative⟩
    · rename_i missing
      rw [if_pos missing] at handled
      cases handled
      exact Http.read_bytes (scrapeResponse_wellFormed 404 (by decide) (by decide) _) []
  · intro waiting
    split at told
    · exact told.2
    · exact told.2.2
    · rename_i done
      exact absurd done waiting
    · exact told.2
  · intro failed
    rw [failed] at told
    exact told.1

/-- A request for the page comes in pieces around a command. -/
def scrapedRun : List ServiceEvent :=
  [.dataReceived [71, 69, 84, 32, 47, 109, 101, 116, 114], .server (.connected none), .round,
   .dataReceived [105, 99, 115, 32, 72, 84, 84, 80, 47, 49, 46, 49, 13, 10, 13], .round,
   .server (.dataReceived 0 [80, 73, 78, 71, 10]), .server (.round 0 (Clock.still 1) .done 0), .dataReceived [10],
   .round]

theorem scrapedRun_counts :
    let start : Service :=
      ⟨Server.started Sha256.leading 1 Nat.one_pos [] (fun _ => Clock.still 0) fun _ => Clock.still 0, .opened⟩
    (((machine Sha256.leading CountMinSketch.sha256Row).after start scrapedRun).scraper.phase matches .done) = true ∧
      Scraped Sha256.leading CountMinSketch.sha256Row start scrapedRun :=
  ⟨by decide +kernel, scrape_counts Sha256.leading CountMinSketch.sha256Row 1 Nat.one_pos [] _ _ scrapedRun⟩

end Service
end LiteStore
