import LiteStore.Persistence.Torn

/-!
# The log's round trip

A log whose lines are all ended, whatever they hold, is read line by line: the
lines that parse are its records (`replayText_linesText`), and the next sequence
number lies above all of theirs (`replayed_lt_next`). Sessions of appends add one
line for each request, so replay gives the old records and then the requests, and
the new sequence numbers rise above all before them.
-/

namespace LiteStore
set_option autoImplicit false
open Py

/-- The text of a file of ended lines. -/
def linesText (lines : List (List Char)) : List Char := lines.flatMap fun line => line ++ ['\n']

/-- The records of a file's lines: what `_parse_record_line` makes of each once stripped. -/
def lineRecords (lines : List (List Char)) : List PersistRecord :=
  lines.filterMap fun line => parseRecordLine (strip line)

@[simp] theorem linesText_append (lines lines' : List (List Char)) :
    linesText (lines ++ lines') = linesText lines ++ linesText lines' := List.flatMap_append

@[simp] theorem lineRecords_append (lines lines' : List (List Char)) :
    lineRecords (lines ++ lines') = lineRecords lines ++ lineRecords lines' := List.filterMap_append

/-! ## Reading -/

theorem strip_newline (line : List Char) : strip (line ++ ['\n']) = strip line := by
  unfold strip
  rw [List.dropWhile_append]
  split
  · rename_i blank
    rw [List.isEmpty_iff.mp blank]
    rfl
  · rw [List.reverse_append, List.reverse_singleton, List.singleton_append,
      List.dropWhile_cons_of_pos (by decide)]

theorem replayLine_eq (rawLine : List Char) : replayLine rawLine = parseRecordLine (strip rawLine) := by
  unfold replayLine
  by_cases blank : strip rawLine = []
  · rw [blank]
    rfl
  · exact if_neg blank

/-- A file of ended lines is read as the records of its lines. -/
theorem replayText_linesText {lines : List (List Char)} (flat : ∀ line ∈ lines, OneLine line) :
    replayText (linesText lines) = lineRecords lines := by
  induction lines with
  | nil => rfl
  | cons line lines ih =>
    have text : linesText (line :: lines) = line ++ '\n' :: linesText lines := by simp [linesText]
    rw [text, replayText_line (flat line (by simp)), replayLine_eq, strip_newline,
      ih fun l member => flat l (by simp [member]), lineRecords, lineRecords, List.filterMap_cons]
    cases parseRecordLine (strip line) <;> rfl

/-- One line of the start-up scan. -/
def scanLine (maxSequence : Int) (rawLine : List Char) : Int :=
  match parseRecordLine (strip rawLine) with
  | none => maxSequence
  | some parsed => if parsed.sequence > maxSequence then parsed.sequence else maxSequence

/-- If no line raises anything, the scan comes to its end. -/
theorem discoverFrom_fine {m : Type → Type} [Monad m] [LawfulMonad m]
    {parse : List Char → m (Option PersistRecord)} {lines : List (List Char)}
    (fine : ∀ rawLine ∈ lines, parse (strip rawLine) = pure (parseRecordLine (strip rawLine)))
    (maxSequence : Int) : discoverFrom parse maxSequence lines = pure (lines.foldl scanLine maxSequence + 1) := by
  induction lines generalizing maxSequence with
  | nil => rfl
  | cons rawLine lines ih =>
    have rest := ih fun l member => fine l (List.mem_cons_of_mem _ member)
    rw [discoverFrom, fine rawLine List.mem_cons_self, pure_bind, List.foldl_cons, ← rest, scanLine]
    cases parseRecordLine (strip rawLine) <;> rfl

theorem discoverNextSequence_scan (file : List Char) :
    discoverNextSequence file = (rawLines file).foldl scanLine (-1) + 1 :=
  congrArg Id.run (discoverFrom_fine (m := Id) (fun _ _ => rfl) (-1))

/-- A line never lowers the maximum, and its record is not above it. -/
theorem scanLine_spec (maxSequence : Int) (rawLine : List Char) :
    maxSequence ≤ scanLine maxSequence rawLine ∧
      ∀ record, parseRecordLine (strip rawLine) = some record →
        record.sequence ≤ scanLine maxSequence rawLine := by
  unfold scanLine
  cases parseRecordLine (strip rawLine) with
  | none => simp
  | some parsed =>
    have bounds : maxSequence ≤ (if parsed.sequence > maxSequence then parsed.sequence else maxSequence) ∧
        parsed.sequence ≤ (if parsed.sequence > maxSequence then parsed.sequence else maxSequence) := by
      omega
    simpa using bounds

theorem scan_spec (lines : List (List Char)) (start : Int) :
    start ≤ lines.foldl scanLine start ∧
      ∀ line ∈ lines, ∀ record, parseRecordLine (strip line) = some record →
        record.sequence ≤ lines.foldl scanLine start := by
  induction lines generalizing start with
  | nil => simp
  | cons line lines ih =>
    obtain ⟨above, here⟩ := scanLine_spec start line
    obtain ⟨rises, later⟩ := ih (scanLine start line)
    rw [List.foldl_cons]
    refine ⟨above.trans rises, fun l member record read => ?_⟩
    rcases List.mem_cons.mp member with rfl | member
    · exact (here record read).trans rises
    · exact later l member record read

/-- The start-up scan finds a number above every record of the file. -/
theorem replayed_lt_next (file : List Char) {record : PersistRecord} (member : record ∈ replayText file) :
    record.sequence < discoverNextSequence file := by
  rw [replayText_eq] at member
  obtain ⟨rawLine, listed, read⟩ := List.mem_filterMap.mp member
  rw [replayLine_eq] at read
  have bound := (scan_spec (rawLines file) (-1)).2 rawLine listed record read
  rw [discoverNextSequence_scan]
  omega

/-! ## Appending -/

/-- The sequence numbers rise through the records. -/
def Rising (records : List PersistRecord) : Prop :=
  records.Pairwise fun before record => before.sequence < record.sequence

/-- One session's numbers start at the next sequence and rise. -/
theorem appendAll_rising (p : AofPersistence) (requests : List CommandRequest) :
    (∀ record ∈ (p.appendAll requests).1, p.nextSequence ≤ record.sequence) ∧
      Rising (p.appendAll requests).1 := by
  induction requests generalizing p with
  | nil => exact ⟨by rintro record ⟨⟩, List.Pairwise.nil⟩
  | cons request requests ih =>
    obtain ⟨above, rising⟩ := ih (p.appended request).2
    have next : (p.appended request).2.nextSequence = p.nextSequence + 1 := rfl
    have records : (p.appendAll (request :: requests)).1 =
        ⟨p.nextSequence, request⟩ :: ((p.appended request).2.appendAll requests).1 := rfl
    rw [next] at above
    rw [records]
    refine ⟨fun record member => ?_, List.pairwise_cons.mpr ⟨fun record member => ?_, rising⟩⟩
    · rcases List.mem_cons.mp member with rfl | member
      · exact le_refl _
      · have := above record member
        omega
    · have := above record member
      show p.nextSequence < record.sequence
      omega

theorem lineRecords_text (records : List PersistRecord) :
    lineRecords (records.map PersistRecord.text) = records.map PersistRecord.logged := by
  induction records with
  | nil => rfl
  | cons record records ih =>
    have bare : strip (record.text ++ []) = record.text := strip_text record (by simp)
    rw [List.append_nil] at bare
    rw [lineRecords, List.map_cons, List.filterMap_cons, bare, parseRecordLine_text]
    exact congrArg (record.logged :: ·) ih

theorem linesText_text (records : List PersistRecord) :
    linesText (records.map PersistRecord.text) = records.flatMap PersistRecord.line := by
  rw [linesText, List.flatMap_map]
  rfl

theorem oneLine_text {lines : List (List Char)} (flat : ∀ line ∈ lines, OneLine line)
    (records : List PersistRecord) : ∀ line ∈ lines ++ records.map PersistRecord.text, OneLine line := by
  intro line member
  rcases List.mem_append.mp member with old | new
  · exact flat line old
  · obtain ⟨record, _, rfl⟩ := List.mem_map.mp new
    exact text_oneLine record

/-- The new records are above the records of the lines before them, and rise. -/
theorem writeSessions_rising {lines : List (List Char)} (flat : ∀ line ∈ lines, OneLine line)
    (sessions : List Session) :
    (∀ record ∈ (writeSessions (linesText lines) sessions).1, ∀ old ∈ lineRecords lines,
        old.sequence < record.sequence) ∧
      Rising (writeSessions (linesText lines) sessions).1 := by
  induction sessions generalizing lines with
  | nil => exact ⟨by rintro record ⟨⟩, List.Pairwise.nil⟩
  | cons session sessions ih =>
    set log := AofPersistence.opened (linesText lines) session.fsyncPolicy session.fsyncEveryN with hlog
    obtain ⟨above, rising⟩ := appendAll_rising log session.requests
    -- The next session opens the old lines and one more for each record.
    have file : (log.appendAll session.requests).2.file =
        linesText (lines ++ (log.appendAll session.requests).1.map PersistRecord.text) := by
      rw [appendAll_file rfl, linesText_append, linesText_text]
      rfl
    obtain ⟨later, rest⟩ := ih (oneLine_text flat (log.appendAll session.requests).1)
    rw [← file, lineRecords_append, lineRecords_text] at later
    rw [← file] at rest
    have records : (writeSessions (linesText lines) (session :: sessions)).1 =
        (log.appendAll session.requests).1 ++
          (writeSessions (log.appendAll session.requests).2.file sessions).1 := rfl
    rw [records]
    refine ⟨fun record member old oldest => ?_, List.pairwise_append.mpr ⟨rising, rest, ?_⟩⟩
    · rcases List.mem_append.mp member with first | second
      · have next : old.sequence < log.nextSequence :=
          replayed_lt_next (linesText lines) (by rwa [replayText_linesText flat])
        exact next.trans_le (above record first)
      · exact later record second old (List.mem_append_left _ oldest)
    · intro before first record second
      exact later record second before.logged (List.mem_append_right _ (List.mem_map_of_mem first))

/-- **The log round-trips.** On a file of ended lines without line breaks inside, any number of
sessions of appends: replay gives the records of the old lines and then the requests of the
sessions, in their order, and every new sequence number is above all before it. -/
theorem log_round_trip (lines : List (List Char)) (flat : ∀ line ∈ lines, OneLine line)
    (sessions : List Session) :
    let written := writeSessions (linesText lines) sessions
    replayText written.2 = lineRecords lines ++ written.1.map PersistRecord.logged ∧
      written.1.map PersistRecord.request = sessions.flatMap Session.requests ∧
      (∀ record ∈ written.1, ∀ old ∈ lineRecords lines, old.sequence < record.sequence) ∧
      Rising written.1 := by
  intro written
  have file : written.2 = linesText (lines ++ written.1.map PersistRecord.text) := by
    rw [linesText_append, linesText_text]
    exact writeSessions_file (linesText lines) sessions
  refine ⟨?_, writeSessions_requests _ sessions, writeSessions_rising flat sessions⟩
  rw [file, replayText_linesText (oneLine_text flat written.1), lineRecords_append, lineRecords_text]

/-- A log with a record, an array, a cut record and an empty line. -/
def mixedLines : List (List Char) :=
  [(⟨7, { command := .SET, args := ["k", "old"] }⟩ : PersistRecord).text, ['[', '1', ']'], ['{', '"'], []]

theorem mixedLines_oneLine : ∀ line ∈ mixedLines, OneLine line := by
  intro line member
  simp only [mixedLines, List.mem_cons, List.not_mem_nil, or_false] at member
  rcases member with rfl | rfl | rfl | rfl
  · exact text_oneLine _
  all_goals simp [OneLine]

theorem mixed_log_round_trip :
    let written := writeSessions (linesText mixedLines)
      [⟨.ALWAYS, 1, [{ command := .SET, args := ["a\n", "\"\\"] }]⟩, ⟨.NEVER, 9, [{ command := .DEL, args := ["k"] }]⟩]
    replayText written.2 = lineRecords mixedLines ++ written.1.map PersistRecord.logged ∧
      written.1.map PersistRecord.request =
        [{ command := .SET, args := ["a\n", "\"\\"] }, { command := .DEL, args := ["k"] }] ∧
      (∀ record ∈ written.1, ∀ old ∈ lineRecords mixedLines, old.sequence < record.sequence) ∧
      Rising written.1 :=
  log_round_trip mixedLines mixedLines_oneLine
    [⟨.ALWAYS, 1, [{ command := .SET, args := ["a\n", "\"\\"] }]⟩, ⟨.NEVER, 9, [{ command := .DEL, args := ["k"] }]⟩]

end LiteStore
