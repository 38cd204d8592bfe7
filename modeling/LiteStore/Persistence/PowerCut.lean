import LiteStore.Lib.Disk
import LiteStore.Persistence.Durable

/-!
# Power cuts

What is left of a log after a power cut is all that the last `fsync` covers, and any first part of the bytes that
were written behind it: a file system that keeps a later page and loses an earlier one is left out. Replay reads the
whole records of that, so it loses no record but the last, and no more of them than the policy's window.
-/

namespace LiteStore
set_option autoImplicit false
open Py

/-! ## What replay reads -/

/-- Replay of records that are cut anywhere. -/
theorem replayText_cut (records : List PersistRecord) (cut : Nat) :
    replayText ((records.flatMap PersistRecord.line).take cut) = survivors records cut := by
  rcases cut_cases records cut with ⟨whole, left, survive⟩ | ⟨whole, record, torn, lost, text, nonempty, left, survive⟩
  · rw [left, survive, replayText_whole]
  · rw [left, survive, replayText_lines]
    congr 1
    by_cases all : lost = []
    · subst all
      rw [List.append_nil] at text
      rw [← text, replayText_unterminated, if_pos rfl]
    · rw [replayText_torn text nonempty all, if_neg all]

/-- They are the first records, and all whose lines are there. -/
theorem survivors_take (records : List PersistRecord) (cut : Nat) :
    ∃ j, survivors records cut = (records.take j).map PersistRecord.logged ∧ j ≤ records.length ∧
      ∀ m, m ≤ records.length → ((records.take m).flatMap PersistRecord.line).length ≤ cut → m ≤ j := by
  induction records generalizing cut with
  | nil => exact ⟨0, rfl, le_rfl, fun m bound _ => bound⟩
  | cons record records ih =>
    have size : record.line.length = record.text.length + 1 := by simp [PersistRecord.line]
    by_cases first : record.text.length ≤ cut
    · obtain ⟨j, survive, bound, most⟩ := ih (cut - record.line.length)
      refine ⟨j + 1, ?_, by simpa using bound, fun m bound fits => ?_⟩
      · rw [survivors, if_pos first, survive, List.take_succ_cons, List.map_cons]
      · cases m with
        | zero => exact Nat.zero_le _
        | succ m =>
          rw [List.take_succ_cons, List.flatMap_cons, List.length_append] at fits
          apply Nat.succ_le_succ
          apply most
          · simpa using bound
          · omega
    · refine ⟨0, ?_, Nat.zero_le _, fun m _ fits => ?_⟩
      · rw [survivors, if_neg first]
        rfl
      · cases m with
        | zero => exact le_rfl
        | succ m =>
          rw [List.take_succ_cons, List.flatMap_cons, List.length_append] at fits
          omega

/-- Ended lines are read one by one, whatever is behind them. -/
theorem replayText_ended {lines : List (List Char)} (flat : ∀ line ∈ lines, OneLine line) (rest : List Char) :
    replayText (linesText lines ++ rest) = lineRecords lines ++ replayText rest := by
  induction lines with
  | nil => rfl
  | cons line lines ih =>
    have text : linesText (line :: lines) ++ rest = line ++ '\n' :: (linesText lines ++ rest) := by simp [linesText]
    have records : lineRecords (line :: lines) = (parseRecordLine (strip line)).toList ++ lineRecords lines := by
      rw [lineRecords, lineRecords, List.filterMap_cons]
      cases parseRecordLine (strip line) <;> rfl
    rw [text, replayText_line (flat line List.mem_cons_self), replayLine_eq, strip_newline,
      ih fun l m => flat l (List.mem_cons_of_mem _ m), records, List.append_assoc]

namespace AofPersistence

/-! ## The file on the disk -/

/-- What an event of the log is to the disk. -/
def diskEvent : FileEvent → DiskEvent Char
  | .write record => .write record.line
  | .fsync succeeds => .sync succeeds

/-- The file after events of the log, if what it held before is on the disk. -/
def disk (old : List Char) (events : List FileEvent) : AppendFile Char :=
  AppendFile.after ⟨old, []⟩ (events.map diskEvent)

/-- The records that events write. -/
def writtenRecords (events : List FileEvent) : List PersistRecord :=
  events.filterMap fun
    | .write record => some record
    | .fsync _ => none

theorem writtenRecords_append (events more : List FileEvent) :
    writtenRecords (events ++ more) = writtenRecords events ++ writtenRecords more := List.filterMap_append

theorem disk_append (old : List Char) (events more : List FileEvent) :
    disk old (events ++ more) = (disk old events).after (more.map diskEvent) := by
  rw [disk, List.map_append, AppendFile.after_append]
  rfl

/-- The disk has the lines that an `fsync` covers, and the file those of all records. -/
theorem disk_records (old : List Char) (events : List FileEvent) :
    (disk old events).durable = old ++ ((writtenRecords events).take
        ((writtenRecords events).length - unsynced events)).flatMap PersistRecord.line ∧
      (disk old events).contents = old ++ (writtenRecords events).flatMap PersistRecord.line := by
  induction events using List.reverseRecOn with
  | nil => exact ⟨(List.append_nil old).symm, rfl⟩
  | append_singleton events event ih =>
    obtain ⟨durable, contents⟩ := ih
    rw [disk_append, writtenRecords_append, unsynced_append]
    cases event with
    | write record =>
      refine ⟨durable.trans ?_, ?_⟩
      · show _ = old ++ ((writtenRecords events ++ [record]).take
          ((writtenRecords events ++ [record]).length - (unsynced events + 1))).flatMap PersistRecord.line
        rw [List.length_append, List.length_singleton, Nat.add_sub_add_right, List.take_append_of_le_length (by omega)]
      · show (disk old events).durable ++ ((disk old events).cached ++ record.line) =
          old ++ (writtenRecords events ++ [record]).flatMap PersistRecord.line
        rw [List.flatMap_append, List.flatMap_singleton, ← List.append_assoc, ← List.append_assoc, ← contents]
        rfl
    | fsync succeeds =>
      have none : writtenRecords events ++ writtenRecords [.fsync succeeds] = writtenRecords events :=
        List.append_nil _
      rw [none]
      cases succeeds with
      | false => exact ⟨durable, contents⟩
      | true =>
        refine ⟨contents.trans ?_, (List.append_nil _).trans contents⟩
        show _ = old ++ ((writtenRecords events).take ((writtenRecords events).length - 0)).flatMap PersistRecord.line
        rw [Nat.sub_zero, List.take_length]

/-- Replay of what a power cut leaves: the old records and the first of the new ones, among them all that an `fsync`
has covered. -/
theorem replayText_left {lines : List (List Char)} (flat : ∀ line ∈ lines, OneLine line) {events : List FileEvent}
    {left : List Char} (leaves : (disk (linesText lines) events).Leaves left) :
    ∃ j, replayText left = lineRecords lines ++ ((writtenRecords events).take j).map PersistRecord.logged ∧
      j ≤ (writtenRecords events).length ∧ ∀ before later, events = before ++ later →
        (writtenRecords before).length ≤ j + unsynced before := by
  obtain ⟨least, most⟩ := leaves
  rw [(disk_records (linesText lines) events).2] at most
  -- What is left is the old lines and a part of the new ones.
  have old : linesText lines <+: left :=
    (AppendFile.after_durable ⟨linesText lines, []⟩ (events.map diskEvent)).trans least
  obtain ⟨more, rfl⟩ := old
  have most := (List.prefix_append_right_inj _).mp most
  have cut : more = ((writtenRecords events).flatMap PersistRecord.line).take more.length :=
    List.prefix_iff_eq_take.mp most
  obtain ⟨j, survive, bound, all⟩ := survivors_take (writtenRecords events) more.length
  refine ⟨j, ?_, bound, ?_⟩
  · rw [replayText_ended flat, cut, replayText_cut, survive]
  · rintro before later rfl
    -- The lines that were covered then are on the disk now.
    have kept : (disk (linesText lines) before).durable <+: linesText lines ++ more := by
      rw [disk_append] at least
      exact (AppendFile.after_durable _ _).trans least
    rw [(disk_records (linesText lines) before).1] at kept
    have kept := ((List.prefix_append_right_inj _).mp kept).length_le
    have covered : (writtenRecords before).length - unsynced before ≤ j := by
      apply all
      · rw [writtenRecords_append, List.length_append]
        omega
      · rw [writtenRecords_append, List.take_append_of_le_length (Nat.sub_le _ _)]
        exact kept
    omega

/-! ## Runs -/

theorem fileEvents_append (p : AofPersistence) (calls more : List LogCall) :
    fileEvents p (calls ++ more) = fileEvents p calls ++ fileEvents (logMachine.after p calls) more :=
  logMachine.collect_append _ p calls more

/-- The window of a call that has returned. -/
theorem unsynced_returned {file : List Char} {policy : FsyncPolicy} {n : Int} (positive : 1 ≤ n)
    (calls : List LogCall) (c : LogCall)
    (returns : ((logMachine.after (opened file policy n) calls).performLog c).1.result.isOk = true) :
    let window := unsynced (fileEvents (opened file policy n) (calls ++ [c]))
    (c.op = .forceFsync ∨ policy = .ALWAYS → window = 0) ∧ (policy = .EVERY_N → (window : Int) ≤ n - 1) := by
  have events : fileEvents (opened file policy n) (calls ++ [c]) = fileEvents (opened file policy n) calls ++
      ((logMachine.after (opened file policy n) calls).performLog c).1.events := by
    rw [fileEvents_append]
    exact congrArg _ (List.append_nil _)
  simp only [events]
  by_cases force : c.op = .forceFsync
  · have synced : unsynced (fileEvents (opened file policy n) calls ++
        ((logMachine.after (opened file policy n) calls).performLog c).1.events) = 0 := by
      obtain ⟨op, fsync⟩ := c
      cases force
      cases fsync with
      | error text => cases returns
      | ok _ => rw [unsynced_append]; rfl
    exact ⟨fun _ => synced, fun _ => by omega⟩
  · obtain ⟨always, every⟩ := append_window file policy positive calls force returns
    exact ⟨fun synced => always (synced.resolve_left force), every⟩

/-- **A power cut** on a log of ended lines, after any calls, whatever the outcome of any `fsync`, that leaves any
first part of the unsynced bytes: replay yields the old records and the first ones of the new, in order. Of the records
that are written when a call returns, those are all under `ALWAYS` and after a `force_fsync`, and all but `n - 1`
under `EVERY_N`. -/
theorem power_cut_window {lines : List (List Char)} (flat : ∀ line ∈ lines, OneLine line) (policy : FsyncPolicy)
    {n : Int} (positive : 1 ≤ n) (calls : List LogCall) {left : List Char}
    (leaves : (disk (linesText lines) (fileEvents (opened (linesText lines) policy n) calls)).Leaves left) :
    let log := opened (linesText lines) policy n
    ∃ kept, kept <+: writtenRecords (fileEvents log calls) ∧
      replayText left = lineRecords lines ++ kept.map PersistRecord.logged ∧
      ∀ earlier c later, calls = earlier ++ c :: later →
        ((logMachine.after log earlier).performLog c).1.result.isOk = true →
        let told := writtenRecords (fileEvents log (earlier ++ [c]))
        (c.op = .forceFsync ∨ policy = .ALWAYS → told <+: kept) ∧
          (policy = .EVERY_N → (told.length : Int) ≤ kept.length + (n - 1)) := by
  intro log
  obtain ⟨j, read, bound, covered⟩ := replayText_left flat leaves
  refine ⟨(writtenRecords (fileEvents log calls)).take j, List.take_prefix _ _, read, ?_⟩
  rintro earlier c later rfl returns told
  obtain ⟨whole, window⟩ := unsynced_returned positive earlier c returns
  have parts : fileEvents log (earlier ++ c :: later) =
      fileEvents log (earlier ++ [c]) ++ fileEvents (logMachine.after log (earlier ++ [c])) later := by
    rw [← fileEvents_append, List.append_assoc, List.singleton_append]
  have enough : told.length ≤ j + unsynced (fileEvents log (earlier ++ [c])) := covered _ _ parts
  have size : ((writtenRecords (fileEvents log (earlier ++ c :: later))).take j).length = j := by
    rw [List.length_take]
    exact Nat.min_eq_left bound
  refine ⟨fun synced => ?_, fun every => ?_⟩
  · have none : unsynced (fileEvents log (earlier ++ [c])) = 0 := whole synced
    have all : told <+: writtenRecords (fileEvents log (earlier ++ c :: later)) := by
      rw [parts, writtenRecords_append]
      exact List.prefix_append _ _
    apply List.prefix_of_prefix_length_le all (List.take_prefix _ _)
    rw [size]
    omega
  · have some : (unsynced (fileEvents log (earlier ++ [c])) : Int) ≤ n - 1 := window every
    rw [size]
    omega

/-- Four writes with a window of three; the machine stops inside the fourth. -/
def stoppedCalls : List LogCall :=
  [⟨.appendRequest { command := .SET, args := ["a", "1"] }, .ok ()⟩,
   ⟨.appendRequest { command := .SET, args := ["b", "2"] }, .ok ()⟩,
   ⟨.appendRequest { command := .DEL, args := ["a"] }, .ok ()⟩,
   ⟨.appendRequest { command := .SET, args := ["c", "3"] }, .ok ()⟩]

theorem stopped_window :
    let log := opened [] .EVERY_N 3
    let left := (logMachine.after log stoppedCalls).file.take 180
    ∃ kept, kept <+: writtenRecords (fileEvents log stoppedCalls) ∧
      replayText left = lineRecords [] ++ kept.map PersistRecord.logged ∧
      ∀ earlier c later, stoppedCalls = earlier ++ c :: later →
        ((logMachine.after log earlier).performLog c).1.result.isOk = true →
        let told := writtenRecords (fileEvents log (earlier ++ [c]))
        (c.op = .forceFsync ∨ FsyncPolicy.EVERY_N = .ALWAYS → told <+: kept) ∧
          (FsyncPolicy.EVERY_N = .EVERY_N → (told.length : Int) ≤ kept.length + (3 - 1)) := by
  refine power_cut_window (List.forall_mem_nil _) .EVERY_N (by decide) stoppedCalls ⟨?_, ?_⟩
  · decide +kernel
  · decide +kernel

end AofPersistence
end LiteStore
