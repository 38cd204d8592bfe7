import LiteStore.Persistence.Lines

/-!
# Torn writes

A log that a crash cuts at any byte is whole lines and possibly the beginning of
one more record. Replay of what survives is right at every cut. Once the file is
opened again and appended to, the first new record lands on the line of the torn
one, so replay is right exactly when nothing is appended or no line was torn.
-/

namespace LiteStore
set_option autoImplicit false
open Py

/-- A process that opens the log and appends requests to it. -/
structure Session where
  fsyncPolicy : FsyncPolicy
  fsyncEveryN : Int
  requests : List CommandRequest

/-- The records and the file after sessions on a file, one after the other. -/
def writeSessions (file : List Char) : List Session → List PersistRecord × List Char
  | [] => ([], file)
  | session :: sessions =>
    let (records, p) := (AofPersistence.opened file session.fsyncPolicy session.fsyncEveryN).appendAll
      session.requests
    let (more, file) := writeSessions p.file sessions
    (records ++ more, file)

/-- The records whose JSON text lies within the first `cut` bytes of their lines, in order. -/
def survivors : List PersistRecord → Nat → List PersistRecord
  | [], _ => []
  | record :: records, cut =>
    if record.text.length ≤ cut then record.logged :: survivors records (cut - record.line.length)
    else []

/-! ## What is written -/

theorem appendAll_file {p : AofPersistence} (whole : p.buffered = []) (requests : List CommandRequest) :
    (p.appendAll requests).2.file = p.file ++ (p.appendAll requests).1.flatMap PersistRecord.line := by
  induction requests generalizing p with
  | nil => simp [AofPersistence.appendAll]
  | cons request requests ih =>
    have first : (p.appended request).2.file = p.file ++ (p.appended request).1.line := by
      rw [AofPersistence.appended, whole]
      rfl
    simp only [AofPersistence.appendAll, List.flatMap_cons]
    rw [ih rfl, first, List.append_assoc]

theorem appendAll_requests (p : AofPersistence) (requests : List CommandRequest) :
    (p.appendAll requests).1.map PersistRecord.request = requests := by
  induction requests generalizing p with
  | nil => rfl
  | cons request requests ih =>
    simp only [AofPersistence.appendAll, List.map_cons, ih]
    rfl

theorem appendAll_length (p : AofPersistence) (requests : List CommandRequest) :
    (p.appendAll requests).1.length = requests.length := by
  rw [← List.length_map (f := PersistRecord.request), appendAll_requests]

theorem writeSessions_file (file : List Char) (sessions : List Session) :
    (writeSessions file sessions).2 =
      file ++ (writeSessions file sessions).1.flatMap PersistRecord.line := by
  induction sessions generalizing file with
  | nil => simp [writeSessions]
  | cons session sessions ih =>
    simp only [writeSessions, List.flatMap_append]
    rw [ih, appendAll_file rfl, List.append_assoc]
    rfl

theorem writeSessions_requests (file : List Char) (sessions : List Session) :
    (writeSessions file sessions).1.map PersistRecord.request = sessions.flatMap Session.requests := by
  induction sessions generalizing file with
  | nil => rfl
  | cons session sessions ih =>
    simp only [writeSessions, List.map_append, appendAll_requests, ih, List.flatMap_cons]

/-! ## What is read -/

theorem replayText_lines (records : List PersistRecord) (rest : List Char) :
    replayText (records.flatMap PersistRecord.line ++ rest) =
      records.map PersistRecord.logged ++ replayText rest := by
  induction records with
  | nil => rfl
  | cons record records ih =>
    rw [List.flatMap_cons, PersistRecord.line, List.append_assoc, List.append_assoc,
      List.singleton_append, replayText_record, ih]
    rfl

/-- A log that no crash has cut is replayed whole. -/
theorem replayText_whole (records : List PersistRecord) :
    replayText (records.flatMap PersistRecord.line) = records.map PersistRecord.logged := by
  have lines := replayText_lines records []
  rwa [List.append_nil, replayText_nil, List.append_nil] at lines

theorem AofPersistence.Holds.replay {p : AofPersistence} {records : List PersistRecord} (h : p.Holds records) :
    p.replay = records.map PersistRecord.logged := by
  rw [AofPersistence.replay, h.file, replayText_whole]

/-- What a cut leaves: whole lines, and the beginning of one more record or nothing. -/
inductive Cut (records : List PersistRecord) (cut : Nat) : Prop
  | between (whole : List PersistRecord)
      (left : (records.flatMap PersistRecord.line).take cut = whole.flatMap PersistRecord.line)
      (survive : survivors records cut = whole.map PersistRecord.logged)
  | inside (whole : List PersistRecord) (record : PersistRecord) (torn lost : List Char)
      (text : record.text = torn ++ lost) (nonempty : torn ≠ [])
      (left : (records.flatMap PersistRecord.line).take cut =
        whole.flatMap PersistRecord.line ++ torn)
      (survive : survivors records cut =
        whole.map PersistRecord.logged ++ if lost = [] then [record.logged] else [])

theorem survivors_zero (records : List PersistRecord) : survivors records 0 = [] := by
  cases records with
  | nil => rfl
  | cons record records =>
    have pos := List.length_pos_of_ne_nil (text_ne_nil record)
    rw [survivors, if_neg (by omega)]

/-- Every cut is one of the two. -/
theorem cut_cases (records : List PersistRecord) (cut : Nat) : Cut records cut := by
  induction records generalizing cut with
  | nil => exact .between [] (by simp) rfl
  | cons record records ih =>
    have size : record.line.length = record.text.length + 1 := by simp [PersistRecord.line]
    rcases Nat.lt_or_ge record.text.length cut with past | within
    · -- The first line survives whole.
      have first : ((record :: records).flatMap PersistRecord.line).take cut =
          record.line ++ (records.flatMap PersistRecord.line).take (cut - record.line.length) := by
        rw [List.flatMap_cons, List.take_append, List.take_of_length_le (by omega)]
      have kept : survivors (record :: records) cut =
          record.logged :: survivors records (cut - record.line.length) := by
        rw [survivors, if_pos (by omega)]
      rcases ih (cut - record.line.length) with
        ⟨whole, left, survive⟩ | ⟨whole, next, torn, lost, text, nonempty, left, survive⟩
      · exact .between (record :: whole) (by rw [first, left, List.flatMap_cons])
          (by rw [kept, survive, List.map_cons])
      · exact .inside (record :: whole) next torn lost text nonempty
          (by rw [first, left, List.flatMap_cons, List.append_assoc])
          (by rw [kept, survive, List.map_cons, List.cons_append])
    · have left : ((record :: records).flatMap PersistRecord.line).take cut = record.text.take cut := by
        rw [List.flatMap_cons, PersistRecord.line, List.append_assoc, List.take_append_of_le_length within]
      rcases Nat.eq_zero_or_pos cut with rfl | pos
      · exact .between [] (by rw [left]; rfl) (survivors_zero _)
      · refine .inside [] record (record.text.take cut) (record.text.drop cut)
          (List.take_append_drop cut _).symm ?_ left ?_
        · intro empty
          have := congrArg List.length empty
          simp only [List.length_take, List.length_nil] at this
          omega
        · simp only [survivors, List.map_nil, List.nil_append, List.drop_eq_nil_iff]
          split
          · rw [show cut - record.line.length = 0 by omega, survivors_zero]
          · rfl

/-- The surviving bytes end at a line's end. -/
def EndsLine (surviving : List Char) : Prop := surviving = [] ∨ surviving.getLast? = some '\n'

instance (surviving : List Char) : Decidable (EndsLine surviving) :=
  inferInstanceAs (Decidable (_ ∨ _))

theorem lines_endsLine (records : List PersistRecord) :
    EndsLine (records.flatMap PersistRecord.line) := by
  induction records using List.reverseRecOn with
  | nil => exact Or.inl rfl
  | append_singleton records record _ =>
    right
    rw [List.flatMap_append, List.flatMap_singleton, PersistRecord.line, ← List.append_assoc,
      List.getLast?_concat]

theorem torn_not_endsLine {record : PersistRecord} {torn lost : List Char}
    (text : record.text = torn ++ lost) (nonempty : torn ≠ []) (before : List Char) :
    ¬ EndsLine (before ++ torn) := by
  rintro (empty | last)
  · exact nonempty (List.append_eq_nil_iff.mp empty).2
  · rw [List.getLast?_append_of_ne_nil _ nonempty] at last
    exact (torn_oneLine text _ (List.mem_of_getLast? last)).1 rfl

/-- **Torn writes.** On a log that sessions of appends wrote, cut at any byte, opened again and
appended to: replay yields exactly the records that lie within the surviving bytes and the new
ones if and only if nothing is appended or the surviving bytes end at a line's end. -/
theorem torn_write_iff (sessions : List Session) (cut : Nat) (fsyncPolicy : FsyncPolicy)
    (fsyncEveryN : Int) (requests : List CommandRequest) :
    let log := writeSessions [] sessions
    let surviving := log.2.take cut
    let reopened := (AofPersistence.opened surviving fsyncPolicy fsyncEveryN).appendAll requests
    reopened.2.replay = survivors log.1 cut ++ reopened.1.map PersistRecord.logged ↔
      requests = [] ∨ EndsLine surviving := by
  intro log surviving reopened
  have written : log.2 = log.1.flatMap PersistRecord.line := writeSessions_file [] sessions
  have file : reopened.2.file = surviving ++ reopened.1.flatMap PersistRecord.line :=
    appendAll_file rfl requests
  have count : reopened.1.length = requests.length := appendAll_length _ requests
  have appended := replayText_whole reopened.1
  rw [AofPersistence.replay, file]
  rcases cut_cases log.1 cut with
    ⟨whole, left, survive⟩ | ⟨whole, record, torn, lost, text, nonempty, left, survive⟩
  · have ends : surviving = whole.flatMap PersistRecord.line := by rw [← left, ← written]
    rw [ends, survive, replayText_lines, appended]
    exact ⟨fun _ => Or.inr (lines_endsLine whole), fun _ => rfl⟩
  · have ends : surviving = whole.flatMap PersistRecord.line ++ torn := by rw [← left, ← written]
    have open_ : ¬ EndsLine surviving := ends ▸ torn_not_endsLine text nonempty _
    rw [ends, survive, List.append_assoc, replayText_lines, ← ends]
    cases requests with
    | nil =>
      have none : reopened.1 = [] := List.length_eq_zero_iff.mp count
      rw [none]
      simp only [List.flatMap_nil, List.append_nil, List.map_nil, true_or, iff_true,
        List.append_cancel_left_eq]
      by_cases all : lost = []
      · subst all
        rw [List.append_nil] at text
        rw [← text, replayText_unterminated, if_pos rfl]
      · rw [replayText_torn text nonempty all, if_neg all]
    | cons request requests =>
      -- The first new record is lost, so too few records are replayed.
      obtain ⟨first, rest, records⟩ := List.exists_cons_of_length_eq_add_one count
      have merged : replayText (torn ++ (first :: rest).flatMap PersistRecord.line) =
          rest.map PersistRecord.logged := by
        rw [List.flatMap_cons, PersistRecord.line, List.append_assoc, List.singleton_append,
          replayText_merged text nonempty, replayText_whole]
      rw [records, merged]
      simp only [reduceCtorEq, false_or, open_, iff_false]
      intro same
      have lengths := congrArg List.length same
      simp only [List.length_append, List.length_map, List.length_cons] at lengths
      omega

/-- Three requests, the second cut off inside its record. -/
theorem torn_write_loses_next :
    ¬ ∀ (sessions : List Session) (cut : Nat) (fsyncPolicy : FsyncPolicy) (fsyncEveryN : Int)
      (requests : List CommandRequest),
      let log := writeSessions [] sessions
      let surviving := log.2.take cut
      let reopened := (AofPersistence.opened surviving fsyncPolicy fsyncEveryN).appendAll requests
      reopened.2.replay = survivors log.1 cut ++ reopened.1.map PersistRecord.logged := by
  intro claim
  have replayed := claim
    [⟨.EVERY_N, 100, [{ command := .SET, args := ["a", "1"] }, { command := .SET, args := ["b", "2"] }]⟩]
    70 .EVERY_N 100 [{ command := .SET, args := ["c", "3"] }]
  revert replayed
  decide +kernel

end LiteStore
