import LiteStore.Lib.JsonLimit
import LiteStore.Persistence.RoundTrip
import LiteStore.Time

/-!
# Starting up on any file

`_parse_record_line` catches a `JSONDecodeError`, and nothing catches the `UnicodeDecodeError` of
the file. So a log that some byte or some overlong integer has got into stops the constructor.
Python decodes a file part by part; here it is decoded first, so a file with both faults raises
for its bytes.
-/

namespace LiteStore
set_option autoImplicit false
open Py

/-- The text of a file opened with `encoding="utf-8"`. -/
def fileText (bytes : ByteArray) : Except PyError (List Char) :=
  match String.fromUTF8? bytes with
  | none => .error .unicodeDecodeError
  | some text => .ok text.toList

/-- A line that `json.loads` answers with a plain `ValueError`. -/
def Overlong (line : List Char) : Prop := Json.readsLong maxStrDigits Json.start line = true

instance (line : List Char) : Decidable (Overlong line) := inferInstanceAs (Decidable (_ = true))

/-- `_parse_record_line` with the exception it lets through. -/
def tryParseRecordLine (line : List Char) : Except PyError (Option PersistRecord) :=
  if Overlong line then .error .valueError else .ok (parseRecordLine line)

namespace AofPersistence

/-- `AofPersistence(file_path, fsync_policy, fsync_every_n)` on a file with these bytes. -/
def openFile (bytes : ByteArray) (fsyncPolicy : FsyncPolicy) (fsyncEveryN : Int) :
    Except PyError AofPersistence := do
  let file ← fileText bytes
  let nextSequence ← discoverFrom tryParseRecordLine (-1) (rawLines file)
  return { file, buffered := [], nextSequence, fsyncPolicy, fsyncEveryN, writesSinceFsync := 0 }

/-- `replay` of a file with these bytes, run to its end. -/
def replayFile (bytes : ByteArray) : List PersistRecord × Option PyError :=
  match fileText bytes with
  | .error e => ([], some e)
  | .ok file => replayFrom tryParseRecordLine (rawLines file)

/-- The constructor and `replay` come to their ends on a file with these bytes, and `replay` yields
the record of every line that is one. -/
structure StartsUp (bytes : ByteArray) (fsyncPolicy : FsyncPolicy) (fsyncEveryN : Int) : Prop where
  opens : ∃ p, openFile bytes fsyncPolicy fsyncEveryN = .ok p
  ends : (replayFile bytes).2 = none
  yields : ∀ file, fileText bytes = .ok file →
    (replayFile bytes).1 = lineRecords (rawLines file)

end AofPersistence

/-! ## The text and its lines -/

theorem fileText_ok {bytes : ByteArray} {file : List Char} :
    fileText bytes = .ok file ↔ ∃ text : String, bytes = text.toUTF8 ∧ file = text.toList := by
  unfold fileText String.fromUTF8?
  by_cases valid : bytes.IsValidUTF8
  · rw [dif_pos valid]
    constructor
    · rintro ⟨⟩
      exact ⟨String.fromUTF8 bytes valid, rfl, rfl⟩
    · rintro ⟨text, rfl, rfl⟩
      rfl
  · rw [dif_neg valid]
    refine iff_of_false (by rintro ⟨⟩) ?_
    rintro ⟨text, rfl, -⟩
    exact valid text.isValidUTF8

theorem tryParseRecordLine_fine {line : List Char} (fine : ¬ Overlong line) :
    tryParseRecordLine line = .ok (parseRecordLine line) := if_neg fine

theorem tryParseRecordLine_overlong {line : List Char} (overlong : Overlong line) :
    tryParseRecordLine line = .error .valueError := if_pos overlong

/-- The scan does not get past an overlong line. -/
theorem discoverFrom_overlong {lines : List (List Char)} {rawLine : List Char} (listed : rawLine ∈ lines)
    (overlong : Overlong (strip rawLine)) (maxSequence : Int) :
    discoverFrom tryParseRecordLine maxSequence lines = .error .valueError := by
  induction lines generalizing maxSequence with
  | nil => cases listed
  | cons first lines ih =>
    rw [discoverFrom]
    by_cases here : Overlong (strip first)
    · rw [tryParseRecordLine_overlong here]
      rfl
    · have later : rawLine ∈ lines := by
        rcases List.mem_cons.mp listed with rfl | later
        · exact absurd overlong here
        · exact later
      rw [tryParseRecordLine_fine here]
      cases parseRecordLine (strip first) with
      | none => exact ih later maxSequence
      | some parsed => exact ih later _

/-- The scan ends exactly if no line is overlong. -/
theorem discoverFrom_ok (lines : List (List Char)) (maxSequence : Int) :
    (∃ n, discoverFrom tryParseRecordLine maxSequence lines = .ok n) ↔
      ∀ rawLine ∈ lines, ¬ Overlong (strip rawLine) := by
  constructor
  · rintro ⟨n, scanned⟩ rawLine listed overlong
    rw [discoverFrom_overlong listed overlong] at scanned
    cases scanned
  · intro fine
    exact ⟨_, discoverFrom_fine (fun l m => tryParseRecordLine_fine (fine l m)) maxSequence⟩

theorem filterMap_replayLine (lines : List (List Char)) : lines.filterMap replayLine = lineRecords lines :=
  List.filterMap_congr fun rawLine _ => replayLine_eq rawLine

namespace AofPersistence

/-- A file that is a text without overlong lines opens as that text. -/
theorem openFile_text {bytes : ByteArray} {file : List Char} (decoded : fileText bytes = .ok file)
    (fine : ∀ rawLine ∈ rawLines file, ¬ Overlong (strip rawLine)) (fsyncPolicy : FsyncPolicy)
    (fsyncEveryN : Int) :
    openFile bytes fsyncPolicy fsyncEveryN = .ok (opened file fsyncPolicy fsyncEveryN) := by
  have scanned : discoverFrom tryParseRecordLine (-1) (rawLines file) = .ok (discoverNextSequence file) := by
    rw [discoverNextSequence_scan]
    exact discoverFrom_fine (fun l m => tryParseRecordLine_fine (fine l m)) (-1)
  rw [openFile, decoded]
  simp only [bind, Except.bind, scanned]
  rfl

/-- **Starting up.** The constructor and `replay` come to their ends, with the record of every line
that is one, exactly on the files that are UTF-8 and have no line with an overlong integer. -/
theorem startsUp_iff (bytes : ByteArray) (fsyncPolicy : FsyncPolicy) (fsyncEveryN : Int) :
    StartsUp bytes fsyncPolicy fsyncEveryN ↔
      ∃ text : String, bytes = text.toUTF8 ∧
        ∀ rawLine ∈ rawLines text.toList, ¬ Overlong (strip rawLine) := by
  constructor
  · rintro ⟨⟨p, opens⟩, -, -⟩
    obtain ⟨file, decoded, opens⟩ := bind_eq_ok.mp opens
    obtain ⟨n, scanned, -⟩ := bind_eq_ok.mp opens
    obtain ⟨text, rfl, rfl⟩ := fileText_ok.mp decoded
    exact ⟨text, rfl, (discoverFrom_ok _ _).mp ⟨n, scanned⟩⟩
  · rintro ⟨text, rfl, fine⟩
    have decoded := fileText_ok.mpr ⟨text, rfl, rfl⟩
    have replayed : replayFile text.toUTF8 = (lineRecords (rawLines text.toList), none) := by
      rw [replayFile, decoded, ← filterMap_replayLine]
      exact replayFrom_fine fun l m => tryParseRecordLine_fine (fine l m)
    refine ⟨⟨_, openFile_text decoded fine fsyncPolicy fsyncEveryN⟩, by rw [replayed], ?_⟩
    intro file same
    rw [decoded] at same
    cases same
    rw [replayed]

example : Overlong (List.replicate 4301 '1') ∧ ¬ Overlong (List.replicate 4300 '1') := by
  decide +kernel

/-- A whole record, and a byte that begins no character on the line after it. -/
def strayByte : ByteArray :=
  "\x7b\"sequence\": 0, \"command\": \"SET\", \"args\": [\"a\", \"1\"]\x7d\n".toUTF8.push 0xff

theorem stray_byte_raises :
    ¬ ∀ (bytes : ByteArray) (fsyncPolicy : FsyncPolicy) (fsyncEveryN : Int),
      StartsUp bytes fsyncPolicy fsyncEveryN := by
  intro claim
  have raised : openFile strayByte .ALWAYS 1 = .error .unicodeDecodeError := by decide +kernel
  obtain ⟨p, opens⟩ := (claim strayByte .ALWAYS 1).opens
  rw [raised] at opens
  cases opens

end AofPersistence
end LiteStore
