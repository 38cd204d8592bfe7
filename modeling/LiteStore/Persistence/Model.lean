import LiteStore.Lib.Json
import LiteStore.Py.Text
import LiteStore.Types

/-!
# The append-only log

`AofPersistence` of `src/persistence.py`: one JSON line for each record. What is
written is ASCII, so a byte of the log file is a character of `file`. An append
is given the outcome of its system calls (`LogOutcome`); an `OSError` that leaves
it is given by its text, and the log is left as it is by then: a line whose write
or flush raises may be in the file in part, with more of it still to be written
out by the next append, and a line whose `fsync` raises is there. Sequence numbers
are taken to have at most `maxStrDigits` digits, so that `json.dumps` writes them.
-/

namespace LiteStore
set_option autoImplicit false
open Py

/-- The state of an `AofPersistence` and the text of its file. -/
structure AofPersistence where
  file : List Char
  /-- What a write or flush that raised has left in the buffers of the file object. -/
  buffered : List Char
  nextSequence : Int
  fsyncPolicy : FsyncPolicy
  fsyncEveryN : Int
  writesSinceFsync : Int
deriving DecidableEq

/-- The record as the log keeps it: without the ids of its request. -/
def PersistRecord.logged (record : PersistRecord) : PersistRecord :=
  ⟨record.sequence, { command := record.request.command, args := record.request.args }⟩

/-- The payload of a record. -/
def PersistRecord.payload (record : PersistRecord) : Json.Value :=
  .obj [("sequence", .int record.sequence), ("command", .str record.request.command.value),
    ("args", .arr (record.request.args.map .str))]

/-- The JSON text of a record. -/
def PersistRecord.text (record : PersistRecord) : List Char := Json.dumps record.payload

/-- The line of a record. -/
def PersistRecord.line (record : PersistRecord) : List Char := record.text ++ ['\n']

/-- What the system calls of an `append` come to. -/
inductive LogOutcome where
  /-- The line is written and flushed, and an `os.fsync` has this outcome if it is called. -/
  | flushed (fsync : Except String Unit)
  /-- The write or the flush raises: so many characters have reached the file, and so many of those
  behind them are kept to be written out later. -/
  | unflushed (text : String) (reached kept : Nat)

/-- The text of the `OSError`, if there is one. -/
def LogOutcome.result : LogOutcome → Except String Unit
  | .flushed fsync => fsync
  | .unflushed text _ _ => .error text

/-- Nothing fails. -/
def LogOutcome.done : LogOutcome := .flushed (.ok ())

/-! ## Reading -/

/-- `isinstance(value, int)`; booleans are integers. -/
def asInt? : Json.Value → Option Int
  | .int n => some n
  | .bool b => some (if b then 1 else 0)
  | _ => none

/-- `isinstance(value, str)`. -/
def asStr? : Json.Value → Option String
  | .str s => some s
  | _ => none

/-- `isinstance(value, list)`. -/
def asList? : Json.Value → Option (List Json.Value)
  | .arr items => some items
  | _ => none

/-- `_parse_record_line`. -/
def parseRecordLine (line : List Char) : Option PersistRecord :=
  match Json.loads line with
  | some (.obj data) => do
    let sequence ← asInt? (← Json.get? data "sequence")
    let commandRaw ← asStr? (← Json.get? data "command")
    let argsRaw ← asList? (← Json.get? data "args")
    let args ← argsRaw.mapM asStr?
    let command ← CommandName.ofValue? commandRaw
    return ⟨sequence, { command := command, args := args }⟩
  | _ => none

/-- The newline translation of a file opened as text. -/
def universalNewlines : List Char → List Char
  | [] => []
  | '\r' :: '\n' :: rest => '\n' :: universalNewlines rest
  | '\r' :: rest => '\n' :: universalNewlines rest
  | c :: rest => c :: universalNewlines rest

/-- The lines of a text, each with its newline if it has one. -/
def splitLines : List Char → List (List Char)
  | [] => []
  | c :: rest =>
    if c = '\n' then ['\n'] :: splitLines rest
    else match splitLines rest with
      | [] => [[c]]
      | line :: lines => (c :: line) :: lines

/-- `for raw_line in source`. -/
def rawLines (file : List Char) : List (List Char) := splitLines (universalNewlines file)

/-- The scan of `_discover_next_sequence` from a line on; `parse` is `_parse_record_line`, with the
exceptions it is taken to let through. -/
def discoverFrom {m : Type → Type} [Monad m] (parse : List Char → m (Option PersistRecord))
    (maxSequence : Int) : List (List Char) → m Int
  | [] => return maxSequence + 1
  | rawLine :: lines => do
    match ← parse (strip rawLine) with
    | none => discoverFrom parse maxSequence lines
    | some parsed =>
      discoverFrom parse (if parsed.sequence > maxSequence then parsed.sequence else maxSequence) lines

/-- What `replay` yields from a line on, and the exception that ends it. -/
def replayFrom (parse : List Char → Except PyError (Option PersistRecord)) :
    List (List Char) → List PersistRecord × Option PyError
  | [] => ([], none)
  | rawLine :: lines =>
    let line := strip rawLine
    if line = [] then replayFrom parse lines
    else match parse line with
      | .error e => ([], some e)
      | .ok none => replayFrom parse lines
      | .ok (some parsed) => (parsed :: (replayFrom parse lines).1, (replayFrom parse lines).2)

/-- The records `replay` yields from the text of a file. -/
def replayText (file : List Char) : List PersistRecord :=
  (replayFrom (fun line => .ok (parseRecordLine line)) (rawLines file)).1

/-- `_discover_next_sequence`. -/
def discoverNextSequence (file : List Char) : Int :=
  Id.run (discoverFrom (fun line => pure (parseRecordLine line)) (-1) (rawLines file))

namespace AofPersistence

/-- `AofPersistence(file_path, fsync_policy, fsync_every_n)` on a file with this text. -/
def opened (file : List Char) (fsyncPolicy : FsyncPolicy) (fsyncEveryN : Int) : AofPersistence where
  file := file
  buffered := []
  nextSequence := discoverNextSequence file
  fsyncPolicy := fsyncPolicy
  fsyncEveryN := fsyncEveryN
  writesSinceFsync := 0

/-- `replay`. -/
def replay (p : AofPersistence) : List PersistRecord := replayText p.file

/-! ## Writing -/

/-- The log once a record's line is written and flushed and counted. -/
def flushed (p : AofPersistence) (record : PersistRecord) : AofPersistence :=
  { p with
    file := p.file ++ (p.buffered ++ record.line)
    buffered := []
    writesSinceFsync := p.writesSinceFsync + 1 }

/-- The log once the write or the flush of a record's line has raised. -/
def unflushed (p : AofPersistence) (record : PersistRecord) (reached kept : Nat) : AofPersistence :=
  { p with
    file := p.file ++ (p.buffered ++ record.line).take reached
    buffered := ((p.buffered ++ record.line).drop reached).take kept }

/-- The policy calls for an `os.fsync` at this count of writes. -/
def fsyncDue (p : AofPersistence) : Bool :=
  match p.fsyncPolicy with
  | .ALWAYS => true
  | .EVERY_N => decide (p.writesSinceFsync ≥ p.fsyncEveryN)
  | .NEVER => false

/-- `os.fsync`, and `_writes_since_fsync = 0` behind it. -/
def sync (p : AofPersistence) (fsync : Except String Unit) : Except String Unit × AofPersistence :=
  match fsync with
  | .error text => (.error text, p)
  | .ok _ => (.ok (), { p with writesSinceFsync := 0 })

/-- `append`. -/
def append (p : AofPersistence) (record : PersistRecord) (outcome : LogOutcome) :
    Except String Unit × AofPersistence :=
  match outcome with
  | .unflushed text reached kept => (.error text, p.unflushed record reached kept)
  | .flushed fsync =>
    let p := p.flushed record
    if p.fsyncDue then p.sync fsync else (.ok (), p)

/-- `append_request`. -/
def appendRequest (p : AofPersistence) (request : CommandRequest) (outcome : LogOutcome) :
    Except String PersistRecord × AofPersistence :=
  let record : PersistRecord := ⟨p.nextSequence, request⟩
  match p.append record outcome with
  | (.error text, p) => (.error text, p)
  | (.ok _, p) => (.ok record, { p with nextSequence := p.nextSequence + 1 })

/-- `force_fsync`, with a flush that goes through. -/
def forceFsync (p : AofPersistence) (fsync : Except String Unit) : Except String Unit × AofPersistence :=
  { p with file := p.file ++ p.buffered, buffered := [] }.sync fsync

/-- `close` calls `os.fsync`. -/
def ClosingSyncs (p : AofPersistence) : Prop := p.writesSinceFsync > 0 ∧ p.fsyncPolicy ≠ .NEVER

instance (p : AofPersistence) : Decidable p.ClosingSyncs := inferInstanceAs (Decidable (_ ∧ _))

/-- `close`, with flushes that go through; the file is closed unless it raises. -/
def close (p : AofPersistence) (fsync : Except String Unit) : Except String Unit :=
  if p.ClosingSyncs then (p.forceFsync fsync).1 else .ok ()

/-! ## Appends that succeed and appends that raise -/

/-- The writes that no `fsync` has covered, after one more of them. -/
def writesAfter (p : AofPersistence) : Int :=
  match p.fsyncPolicy with
  | .ALWAYS => 0
  | .EVERY_N => if p.writesSinceFsync + 1 ≥ p.fsyncEveryN then 0 else p.writesSinceFsync + 1
  | .NEVER => p.writesSinceFsync + 1

/-- The record and the log after an `append_request` that succeeds. -/
def appended (p : AofPersistence) (request : CommandRequest) : PersistRecord × AofPersistence :=
  (⟨p.nextSequence, request⟩,
    { p with
      file := p.file ++ (p.buffered ++ (⟨p.nextSequence, request⟩ : PersistRecord).line)
      buffered := []
      nextSequence := p.nextSequence + 1
      writesSinceFsync := p.writesAfter })

/-- The log after an `append_request` that raises: the sequence number has not moved. -/
def failed (p : AofPersistence) (request : CommandRequest) : LogOutcome → AofPersistence
  | .unflushed _ reached kept => p.unflushed ⟨p.nextSequence, request⟩ reached kept
  | .flushed _ => p.flushed ⟨p.nextSequence, request⟩

/-- A list of `append_request` calls that all succeed: the records and the log. -/
def appendAll (p : AofPersistence) : List CommandRequest → List PersistRecord × AofPersistence
  | [] => ([], p)
  | request :: requests =>
    let (record, p) := p.appended request
    let (records, p) := appendAll p requests
    (record :: records, p)

/-- The append raises: its write or flush does, or the `fsync` that it has to make. -/
def Raises (p : AofPersistence) (request : CommandRequest) : LogOutcome → Prop
  | .unflushed _ _ _ => True
  | .flushed fsync => (p.flushed ⟨p.nextSequence, request⟩).fsyncDue = true ∧ fsync.isOk = false

instance (p : AofPersistence) (request : CommandRequest) (outcome : LogOutcome) :
    Decidable (p.Raises request outcome) :=
  match outcome with
  | .unflushed _ _ _ => isTrue trivial
  | .flushed _ => inferInstanceAs (Decidable (_ ∧ _))

variable {p : AofPersistence} {request : CommandRequest} {outcome : LogOutcome}

/-- The count after an append that succeeds, by whether it has to `fsync`. -/
theorem writesAfter_eq (p : AofPersistence) (record : PersistRecord) :
    p.writesAfter = if (p.flushed record).fsyncDue then 0 else p.writesSinceFsync + 1 := by
  obtain ⟨file, buffered, next, policy, every, count⟩ := p
  cases policy with
  | NEVER => rfl
  | ALWAYS => rfl
  | EVERY_N => simp [writesAfter, fsyncDue, flushed]

/-- **An append that raises** has the text of an `OSError`. -/
theorem appendRequest_raises (raises : p.Raises request outcome) :
    ∃ text, outcome.result = .error text ∧
      p.appendRequest request outcome = (.error text, p.failed request outcome) := by
  cases outcome with
  | unflushed text reached kept => exact ⟨text, rfl, rfl⟩
  | flushed fsync =>
    obtain ⟨due, fails⟩ := raises
    cases fsync with
    | ok _ => cases fails
    | error text =>
      have failed : p.append ⟨p.nextSequence, request⟩ (.flushed (.error text)) =
          (.error text, p.flushed ⟨p.nextSequence, request⟩) := by
        simp only [append, due, if_true, sync]
      rw [appendRequest, failed]
      exact ⟨text, rfl, rfl⟩

/-- **Any other append** succeeds. -/
theorem appendRequest_returns (quiet : ¬ p.Raises request outcome) :
    p.appendRequest request outcome = (.ok (p.appended request).1, (p.appended request).2) := by
  cases outcome with
  | unflushed text reached kept => exact absurd trivial quiet
  | flushed fsync =>
    have count := writesAfter_eq p ⟨p.nextSequence, request⟩
    simp only [appendRequest, append, appended, count]
    cases due : (p.flushed ⟨p.nextSequence, request⟩).fsyncDue with
    | false => rfl
    | true =>
      cases fsync with
      | ok _ => rfl
      | error text => exact absurd ⟨due, rfl⟩ quiet

theorem not_raises_done (p : AofPersistence) (request : CommandRequest) : ¬ p.Raises request .done := by
  rintro ⟨_, fails⟩
  cases fails

theorem appendRequest_done (p : AofPersistence) (request : CommandRequest) :
    p.appendRequest request .done = (.ok (p.appended request).1, (p.appended request).2) :=
  appendRequest_returns (not_raises_done p request)

/-- The log holds these records on lines of their own, and has nothing more to write out. -/
structure Holds (p : AofPersistence) (records : List PersistRecord) : Prop where
  file : p.file = records.flatMap PersistRecord.line
  flushed : p.buffered = []

theorem Holds.snoc {records : List PersistRecord} (h : p.Holds records) (record : PersistRecord) :
    (p.flushed record).Holds (records ++ [record]) where
  file := by
    rw [List.flatMap_append, List.flatMap_singleton, ← h.file]
    show p.file ++ (p.buffered ++ _) = _
    rw [h.flushed]
    rfl
  flushed := rfl

theorem Holds.appended {records : List PersistRecord} (h : p.Holds records) (request : CommandRequest) :
    (p.appended request).2.Holds (records ++ [(p.appended request).1]) :=
  ⟨(h.snoc ⟨p.nextSequence, request⟩).file, rfl⟩

/-- A record that is written and flushed is on a line of its own, also where the `fsync` raises. -/
theorem Holds.appendRequest {records : List PersistRecord} (h : p.Holds records) (request : CommandRequest)
    (fsync : Except String Unit) :
    (p.appendRequest request (.flushed fsync)).2.Holds (records ++ [⟨p.nextSequence, request⟩]) := by
  by_cases raises : p.Raises request (.flushed fsync)
  · obtain ⟨text, _, failed⟩ := appendRequest_raises raises
    rw [failed]
    exact h.snoc ⟨p.nextSequence, request⟩
  · rw [appendRequest_returns raises]
    exact h.appended request

end AofPersistence
end LiteStore
