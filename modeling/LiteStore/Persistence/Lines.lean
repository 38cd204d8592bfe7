import LiteStore.Lib.JsonRun
import LiteStore.Persistence.Model

/-!
# Lines of the log

What replay reads from a log, line by line: a written record is one line and is
read back (`replayText_record`), a file cut off inside a record yields nothing
for it (`replayText_torn`), and a record appended behind a torn one is lost with
it (`replayText_merged`).
-/

namespace LiteStore
set_option autoImplicit false
open Py

/-! ## Splitting -/

/-- A text without line breaks. -/
def OneLine (text : List Char) : Prop := ∀ c ∈ text, c ≠ '\n' ∧ c ≠ '\r'

theorem universalNewlines_append {text : List Char} (flat : OneLine text) (rest : List Char) :
    universalNewlines (text ++ rest) = text ++ universalNewlines rest := by
  induction text with
  | nil => rfl
  | cons c text ih =>
    have plain : c ≠ '\r' := (flat c (by simp)).2
    rw [List.cons_append, universalNewlines, ih fun c member => flat c (by simp [member])]
    · rfl
    · intro _ equal
      exact absurd equal plain
    · exact plain

theorem universalNewlines_newline (rest : List Char) :
    universalNewlines ('\n' :: rest) = '\n' :: universalNewlines rest := by
  rw [universalNewlines] <;> simp

theorem splitLines_append {text : List Char} (flat : OneLine text) (rest : List Char) :
    splitLines (text ++ '\n' :: rest) = (text ++ ['\n']) :: splitLines rest := by
  induction text with
  | nil => simp [splitLines]
  | cons c text ih =>
    have plain : c ≠ '\n' := (flat c (by simp)).1
    rw [List.cons_append, splitLines, if_neg plain, ih fun c member => flat c (by simp [member])]
    rfl

theorem splitLines_last {text : List Char} (flat : OneLine text) (nonempty : text ≠ []) :
    splitLines text = [text] := by
  induction text with
  | nil => exact absurd rfl nonempty
  | cons c text ih =>
    have plain : c ≠ '\n' := (flat c (by simp)).1
    rw [splitLines, if_neg plain]
    by_cases last : text = []
    · subst last; rfl
    · rw [ih (fun c member => flat c (by simp [member])) last]

/-! ## Reading line by line -/

/-- What `replay` yields for one line, if nothing is raised. -/
def replayLine (rawLine : List Char) : Option PersistRecord :=
  let line := strip rawLine
  if line = [] then none else parseRecordLine line

/-- If no line raises anything, `replay` reads each by itself. -/
theorem replayFrom_fine {parse : List Char → Except PyError (Option PersistRecord)} {lines : List (List Char)}
    (fine : ∀ rawLine ∈ lines, parse (strip rawLine) = .ok (parseRecordLine (strip rawLine))) :
    replayFrom parse lines = (lines.filterMap replayLine, none) := by
  induction lines with
  | nil => rfl
  | cons rawLine lines ih =>
    have rest := ih fun l member => fine l (List.mem_cons_of_mem _ member)
    rw [replayFrom, rest, fine rawLine List.mem_cons_self, List.filterMap_cons, replayLine]
    dsimp only
    split
    · rfl
    · cases parseRecordLine (strip rawLine) <;> rfl

theorem replayText_eq (file : List Char) : replayText file = (rawLines file).filterMap replayLine :=
  congrArg Prod.fst (replayFrom_fine fun _ _ => rfl)

/-- The first line of a file is read on its own. -/
theorem replayText_line {text : List Char} (flat : OneLine text) (rest : List Char) :
    replayText (text ++ '\n' :: rest) = (replayLine (text ++ ['\n'])).toList ++ replayText rest := by
  rw [replayText_eq, replayText_eq, rawLines, universalNewlines_append flat, universalNewlines_newline,
    splitLines_append flat, List.filterMap_cons]
  cases replayLine (text ++ ['\n']) <;> rfl

theorem replayText_last {text : List Char} (flat : OneLine text) (nonempty : text ≠ []) :
    replayText text = (replayLine text).toList := by
  have same := universalNewlines_append flat []
  rw [List.append_nil, universalNewlines, List.append_nil] at same
  rw [replayText_eq, rawLines, same, splitLines_last flat nonempty, List.filterMap_cons]
  cases replayLine text <;> rfl

@[simp] theorem replayText_nil : replayText [] = [] := rfl

/-! ## Records -/

theorem exactItems_str (args : List String) : Json.ExactItems (args.map .str) := by
  induction args with
  | nil => trivial
  | cons a args ih => exact ⟨trivial, ih⟩

/-- A payload is an object whose first key is "sequence". -/
theorem payload_exact (record : PersistRecord) :
    Json.ExactFields [("sequence", .int record.sequence),
      ("command", .str record.request.command.value),
      ("args", .arr (record.request.args.map .str))] :=
  ⟨trivial, trivial, exactItems_str _, trivial⟩

theorem mapM_asStr (args : List String) : args.mapM (asStr? ∘ Json.Value.str) = some args := by
  induction args with
  | nil => rfl
  | cons a args ih => simp [List.mapM_cons, asStr?, ih]

/-- **Round trip of a record**, but for the ids of its request. -/
theorem parseRecordLine_text (record : PersistRecord) :
    parseRecordLine record.text = some record.logged := by
  have read := Json.loads_dumps (v := record.payload) (payload_exact record)
  rw [parseRecordLine, PersistRecord.text, read]
  simp [PersistRecord.payload, Json.get?, List.lookup_cons, asInt?, asStr?, asList?, mapM_asStr, PersistRecord.logged]

theorem text_printable (record : PersistRecord) : ∀ c ∈ record.text, Json.Printable c :=
  Json.dumps_printable record.payload (payload_exact record)

theorem printable_oneLine {text : List Char} (printable : ∀ c ∈ text, Json.Printable c) : OneLine text := by
  intro c member
  have bounds := printable c member
  constructor <;> rintro rfl <;> exact absurd bounds (by decide)

theorem text_oneLine (record : PersistRecord) : OneLine record.text :=
  printable_oneLine (text_printable record)

/-- A record's text stands between braces. -/
theorem text_braces (record : PersistRecord) : ∃ text, record.text = '{' :: (text ++ ['}']) :=
  Json.dumps_obj _

theorem text_ne_nil (record : PersistRecord) : record.text ≠ [] := by
  obtain ⟨text, eq⟩ := text_braces record
  rw [eq]
  exact List.cons_ne_nil _ _

/-! ## Stripping -/

/-- Trailing white space of a text that starts with a visible character. -/
theorem strip_prefix {c : Char} (visible : isSpace c = false) (text : List Char) :
    ∃ lost, c :: text = strip (c :: text) ++ lost := by
  refine ⟨((c :: text).reverse.takeWhile isSpace).reverse, ?_⟩
  rw [strip, List.dropWhile_cons_of_neg (by simp [visible]), ← List.reverse_append,
    List.takeWhile_append_dropWhile, List.reverse_reverse]

theorem strip_snoc {c d : Char} (first : isSpace c = false) (last : isSpace d = false)
    (text spaces : List Char) (blank : ∀ x ∈ spaces, isSpace x = true) :
    strip (c :: (text ++ [d]) ++ spaces) = c :: (text ++ [d]) := by
  have trailing : (spaces.reverse ++ (c :: (text ++ [d])).reverse).dropWhile isSpace =
      (c :: (text ++ [d])).reverse := by
    rw [List.dropWhile_append_of_pos (by simpa using blank)]
    simp [last]
  rw [strip, List.cons_append, List.dropWhile_cons_of_neg (by simp [first]), ← List.cons_append,
    List.reverse_append, trailing, List.reverse_reverse]

theorem strip_text (record : PersistRecord) {spaces : List Char} (blank : ∀ x ∈ spaces, isSpace x = true) :
    strip (record.text ++ spaces) = record.text := by
  obtain ⟨text, eq⟩ := text_braces record
  rw [eq]
  exact strip_snoc rfl rfl text spaces blank

/-! ## Replayed lines -/

/-- A whole record, with or without its newline. -/
theorem replayLine_text (record : PersistRecord) {spaces : List Char}
    (blank : ∀ x ∈ spaces, isSpace x = true) :
    replayLine (record.text ++ spaces) = some record.logged := by
  simp only [replayLine, strip_text record blank, if_neg (text_ne_nil record),
    parseRecordLine_text]

theorem replayText_record (record : PersistRecord) (rest : List Char) :
    replayText (record.text ++ '\n' :: rest) = record.logged :: replayText rest := by
  rw [replayText_line (text_oneLine record), replayLine_text record (by simp [isSpace])]
  rfl

/-- A file that ends in a whole record without its newline. -/
theorem replayText_unterminated (record : PersistRecord) :
    replayText record.text = [record.logged] := by
  have read : replayLine (record.text ++ []) = some record.logged := replayLine_text record (by simp)
  rw [List.append_nil] at read
  rw [replayText_last (text_oneLine record) (text_ne_nil record), read]
  rfl

theorem parseRecordLine_of_loads {line : List Char} (malformed : Json.loads line = none) :
    parseRecordLine line = none := by
  rw [parseRecordLine, malformed]

/-- A cut record starts with its brace. -/
theorem torn_cons {record : PersistRecord} {torn rest : List Char} (cut : record.text = torn ++ rest)
    (nonempty : torn ≠ []) : ∃ text, torn = '{' :: text := by
  obtain ⟨text, eq⟩ := text_braces record
  obtain ⟨c, torn, rfl⟩ := List.exists_cons_of_ne_nil nonempty
  rw [eq, List.cons_append] at cut
  exact ⟨torn, by rw [(List.cons.inj cut).1]⟩

theorem torn_oneLine {record : PersistRecord} {torn rest : List Char}
    (cut : record.text = torn ++ rest) : OneLine torn :=
  fun c member => text_oneLine record c (by rw [cut]; exact List.mem_append_left _ member)

/-- A file that ends inside a record yields nothing for it. -/
theorem replayText_torn {record : PersistRecord} {torn rest : List Char}
    (cut : record.text = torn ++ rest) (nonempty : torn ≠ []) (lost : rest ≠ []) :
    replayText torn = [] := by
  obtain ⟨text, first⟩ := torn_cons cut nonempty
  obtain ⟨spaces, eq⟩ := strip_prefix (c := '{') rfl text
  rw [← first] at eq
  have malformed : Json.loads (strip torn) = none := by
    have cut' : record.text = strip torn ++ (spaces ++ rest) := by
      rw [← List.append_assoc, ← eq]
      exact cut
    exact Json.loads_torn (payload_exact record) cut' (by simp [lost])
  rw [replayText_last (torn_oneLine cut) nonempty, replayLine, parseRecordLine_of_loads malformed]
  simp

/-- A record appended behind a cut one is lost with it, even behind a whole one without its
newline. -/
theorem replayText_merged {record : PersistRecord} {torn rest : List Char}
    (cut : record.text = torn ++ rest) (nonempty : torn ≠ []) (next : PersistRecord)
    (more : List Char) : replayText (torn ++ (next.text ++ '\n' :: more)) = replayText more := by
  obtain ⟨text, first⟩ := torn_cons cut nonempty
  obtain ⟨body, braces⟩ := text_braces next
  have flat : OneLine (torn ++ next.text) := by
    intro c member
    rcases List.mem_append.mp member with member | member
    · exact torn_oneLine cut c member
    · exact text_oneLine next c member
  have stripped : strip (torn ++ next.text ++ ['\n']) = torn ++ next.text := by
    have shape : torn ++ next.text = '{' :: (text ++ '{' :: body ++ ['}']) := by
      rw [first, braces]
      simp
    rw [shape]
    exact strip_snoc rfl rfl _ ['\n'] (by simp [isSpace])
  have malformed : Json.loads (torn ++ next.text) = none :=
    Json.loads_torn_append (payload_exact record) cut nonempty (c := 's') rfl
      (show "sequence".toList = 's' :: "equence".toList by decide) (payload_exact next)
  rw [← List.append_assoc, replayText_line flat, replayLine, stripped,
    parseRecordLine_of_loads malformed]
  simp

end LiteStore
