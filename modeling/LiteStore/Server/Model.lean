import LiteStore.Lib.LineReader
import LiteStore.Metrics.Render
import LiteStore.Shard.Served

/-!
# The listening server

`_handle_client` of `src/server.py` for any number of connections of a runtime without
multiprocessing. A handler reads lines from its `StreamReader`, processes each and writes the answer.
Processing a line awaits nothing that suspends it: `execute_async` executes at once. So a handler
gives way only where it waits for more bytes or for the client to read, and one round of its loop is
one step of the server. In between bytes arrive, streams end, connections are lost, other handlers
take their rounds, and the refreshing task takes its own.

Timestamps are exact rationals, here and in all that is proved about the server: an `EXPIRE` of so many
seconds that float time raises `OverflowError` is executed like any other.
-/

namespace LiteStore
set_option autoImplicit false
open Py

/-- What all handlers share. -/
structure Backend where
  runtime : LiteStoreRuntime ℚ
  metrics : MetricsCollector

/-- What the handlers and the refreshing task do to it. -/
inductive Job where
  | line (connection : Nat) (raw : List UInt8) (connectionId requestId : String) (clock : Clock ℚ)
    (append : LogOutcome) (durationSeconds : ℚ)
  | refresh (clocks : Nat → Clock ℚ)

namespace Backend

variable (hash : String → Nat) (rowHash : Nat → String → Nat)

/-- `_process_command_bytes`; no response is an exception of the metrics. -/
def processCommandBytes (b : Backend) (clock : Clock ℚ) (append : LogOutcome) (durationSeconds : ℚ)
    (raw : List UInt8) (connectionId requestId : String) : Option CommandResponse × Backend :=
  match parseCommand (String.ofList (decode raw)) (some requestId) (some connectionId) with
  | .error exc => (some (parseErrorResponse exc requestId), b)
  | .ok request =>
    let (response, runtime) := Id.run (b.runtime.dispatchRequest hash clock append request)
    match b.metrics.observeCommand rowHash ⟨request, durationSeconds⟩ with
    | none => (none, { b with runtime })
    | some metrics => (some response, { runtime, metrics })

/-- `_refresh_metrics_snapshot`. -/
def refreshMetricsSnapshot (b : Backend) (clocks : Nat → Clock ℚ) : Backend :=
  let (aggregated, runtime) :=
    Id.run (b.runtime.refreshMetricsSnapshot clocks Dict.empty b.runtime.workers.keys)
  { runtime, metrics := b.metrics.observeStoreSnapshot aggregated }

/-- One job after the other: no connections and no waiting. -/
def serial : Machine Backend Job (Option CommandResponse) where
  step
  | b, .line _ raw connectionId requestId clock append durationSeconds =>
    b.processCommandBytes hash rowHash clock append durationSeconds raw connectionId requestId
  | b, .refresh clocks => (none, b.refreshMetricsSnapshot clocks)

end Backend

/-- Where a handler is: in its loop, behind it, or ended by an exception. -/
inductive Handler where
  | running
  | finished
  | failed
  deriving DecidableEq

/-- A connection and its handler. -/
structure Connection where
  connectionId : String
  requestIndex : Nat
  reader : LineReader UInt8
  /-- What is written goes nowhere, and the next `drain` raises. -/
  lost : Bool
  handler : Handler
  written : List UInt8

/-- `_next_connection_id` with this sequence number; the peer is known by the first two entries of
its name, if that is a tuple with as many. -/
def nextConnectionId (peer : Option (String × String)) (sequence : Nat) : String :=
  match peer with
  | some (host, port) => s!"{host}:{port}:{sequence}"
  | none => s!"connection:{sequence}"

/-- `request_id`. -/
def requestIdOf (connectionId : String) (requestIndex : Nat) : String := s!"{connectionId}:{requestIndex}"

/-- The limit of a `StreamReader`. -/
def readLimit : Nat := 65536

namespace Connection

/-- The handler is called. -/
def opened (connectionId : String) : Connection where
  connectionId := connectionId
  requestIndex := 0
  reader := .fresh
  lost := false
  handler := .running
  written := []

/-- Bytes still reach the reader: the handler has not closed the connection, and no end has come. -/
def listens (c : Connection) : Bool := decide (c.handler = .running) && !c.reader.eof

/-- `data_received`. -/
def dataReceived (c : Connection) (data : List UInt8) : Connection :=
  if c.listens then { c with reader := c.reader.feed data } else c

/-- `eof_received`. -/
def eofReceived (c : Connection) : Connection :=
  if c.handler = .running then { c with reader := c.reader.feedEof } else c

/-- `connection_lost`, with an exception or without. An exception reaches the handler where it waits. -/
def connectionLost (c : Connection) (exc : Bool) : Connection :=
  if c.handler = .running then
    if exc then { c with lost := true, handler := .failed }
    else { c with lost := true, reader := c.reader.feedEof }
  else c

/-- The end of a round: `writer.write` and `writer.drain`. -/
def reply (c : Connection) (response : Option CommandResponse) : Connection :=
  match response with
  | none => { c with handler := .failed }
  | some response =>
    match serializeResponse response with
    | .error _ => { c with handler := .failed }
    | .ok text =>
      if c.lost then { c with handler := .failed }
      else { c with written := c.written ++ encode text.toList }

end Connection

/-- A listening `LiteStoreRuntime`. -/
structure Server where
  backend : Backend
  connectionSequence : Nat
  connections : List Connection

/-- What happens to it. Connections are named by the order in which they were made. -/
inductive ServerEvent where
  | connected (peer : Option (String × String))
  | dataReceived (connection : Nat) (data : List UInt8)
  | eofReceived (connection : Nat)
  | connectionLost (connection : Nat) (exc : Bool)
  | round (connection : Nat) (clock : Clock ℚ) (append : LogOutcome) (durationSeconds : ℚ)
  | refresh (clocks : Nat → Clock ℚ)

namespace Server

/-- `LiteStoreRuntime(config)` after `start`, on a log file with this text. -/
def started (hash : String → Nat) (workerCount : Nat) (positive : 0 < workerCount) (file : List Char)
    (clocks snapshotClocks : Nat → Clock ℚ) : Server where
  backend := Backend.refreshMetricsSnapshot
    ⟨LiteStoreRuntime.started hash workerCount positive file clocks, .init⟩ snapshotClocks
  connectionSequence := 0
  connections := []

/-- A connection changes. -/
def update (s : Server) (i : Nat) (f : Connection → Connection) : Server :=
  { s with connections := s.connections.modify i f }

variable (hash : String → Nat) (rowHash : Nat → String → Nat)

/-- One round of the loop of `_handle_client` and the jobs done in it. -/
def round (s : Server) (i : Nat) (c : Connection) (clock : Clock ℚ) (append : LogOutcome)
    (durationSeconds : ℚ) : List Job × Server :=
  if c.reader.atEof then ([], s.update i fun c => { c with handler := .finished })
  else
    match c.reader.readline 10 readLimit with
    | (.waits, _) => ([], s)
    | (.overrun, reader) => ([], s.update i fun c => { c with reader, handler := .failed })
    | (.line [], reader) => ([], s.update i fun c => { c with reader, handler := .finished })
    | (.line raw, reader) =>
      let requestIndex := c.requestIndex + 1
      let job := Job.line i raw c.connectionId (requestIdOf c.connectionId requestIndex) clock append
        durationSeconds
      let (response, backend) := (Backend.serial hash rowHash).step s.backend job
      ([job], { s with backend }.update i fun c => { c with requestIndex, reader }.reply response)

/-- The server with all its handlers; the output is the jobs done. -/
def machine : Machine Server ServerEvent (List Job) where
  step
  | s, .connected peer =>
    let sequence := s.connectionSequence + 1
    ([], { s with
      connectionSequence := sequence
      connections := s.connections ++ [.opened (nextConnectionId peer sequence)] })
  | s, .dataReceived i data => ([], s.update i fun c => c.dataReceived data)
  | s, .eofReceived i => ([], s.update i Connection.eofReceived)
  | s, .connectionLost i exc => ([], s.update i fun c => c.connectionLost exc)
  | s, .round i clock append durationSeconds =>
    match s.connections[i]? with
    | none => ([], s)
    | some c =>
      if c.handler = .running then s.round hash rowHash i c clock append durationSeconds else ([], s)
  | s, .refresh clocks =>
    let job := Job.refresh clocks
    ([job], { s with backend := ((Backend.serial hash rowHash).step s.backend job).2 })

/-- The jobs of a run. -/
def jobs (s : Server) (events : List ServerEvent) : List Job :=
  (machine hash rowHash).collect (fun s event => ((machine hash rowHash).step s event).1) s events

/-- The bytes that an event brings to a connection. -/
def arrives (i : Nat) (s : Server) : ServerEvent → List UInt8
  | .dataReceived j data => if j = i ∧ (s.connections[i]?).any (·.listens) then data else []
  | _ => []

/-- The bytes that reach a connection in a run. -/
def arrived (i : Nat) (s : Server) (events : List ServerEvent) : List UInt8 :=
  (machine hash rowHash).collect (arrives i) s events

end Server
end LiteStore
