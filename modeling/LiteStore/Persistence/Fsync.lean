import LiteStore.Lib.Machine
import LiteStore.Persistence.RoundTrip

/-!
# A failing fsync

`append` writes and flushes a line, counts it, and then may have to call
`os.fsync`; `append_request` moves the sequence number only after all of that.
So a call whose `fsync` raises has no record to return, but its line is in the
file, and the next call writes another line with the same number. The file holds
exactly the records that were returned if and only if no `fsync` raises.
-/

namespace LiteStore
set_option autoImplicit false
open Py

namespace AofPersistence

/-- A call and the outcome of its `os.fsync`. -/
structure FsyncCall where
  request : CommandRequest
  fsync : Except String Unit

/-- The log as a machine on such calls; writes and flushes go through. -/
def fsyncMachine : Machine AofPersistence FsyncCall (Except String PersistRecord) :=
  ⟨fun p c => p.appendRequest c.request (.flushed c.fsync)⟩

/-- The call has to `fsync`, and that raises. -/
def FsyncRaises (p : AofPersistence) (c : FsyncCall) : Prop := p.Raises c.request (.flushed c.fsync)

instance (p : AofPersistence) (c : FsyncCall) : Decidable (FsyncRaises p c) :=
  inferInstanceAs (Decidable (p.Raises _ _))

/-- The record a call returns, if it returns. -/
def returnedRecord : Except String PersistRecord → List PersistRecord
  | .ok record => [record]
  | .error _ => []

/-- The records that the calls of a run return. -/
def returned (p : AofPersistence) (calls : List FsyncCall) : List PersistRecord :=
  fsyncMachine.collect (fun p c => returnedRecord (fsyncMachine.step p c).1) p calls

/-- The records that the calls of a run write. -/
def written (p : AofPersistence) (calls : List FsyncCall) : List PersistRecord :=
  fsyncMachine.collect (fun p c => [⟨p.nextSequence, c.request⟩]) p calls

/-! ## One call -/

variable {p : AofPersistence}

/-- A call whose `fsync` raises leaves its line and counts it, but keeps the sequence number. -/
theorem step_raises {c : FsyncCall} (raises : FsyncRaises p c) :
    returnedRecord (fsyncMachine.step p c).1 = [] ∧
      (fsyncMachine.step p c).2 = p.flushed ⟨p.nextSequence, c.request⟩ := by
  obtain ⟨text, _, failed⟩ := appendRequest_raises raises
  exact ⟨congrArg (fun r => returnedRecord r.1) failed, congrArg Prod.snd failed⟩

/-- Any other call is an append that succeeds. -/
theorem step_returns {c : FsyncCall} (quiet : ¬ FsyncRaises p c) :
    fsyncMachine.step p c = (.ok (p.appended c.request).1, (p.appended c.request).2) :=
  appendRequest_returns quiet

/-- Every call adds the line of the record it makes. -/
theorem step_file (whole : p.buffered = []) (c : FsyncCall) :
    (fsyncMachine.step p c).2.buffered = [] ∧
      (fsyncMachine.step p c).2.file = p.file ++ (⟨p.nextSequence, c.request⟩ : PersistRecord).line := by
  by_cases raises : FsyncRaises p c
  · rw [(step_raises raises).2, flushed, whole]
    exact ⟨rfl, rfl⟩
  · rw [step_returns raises, appended, whole]
    exact ⟨rfl, rfl⟩

/-! ## Runs -/

theorem after_file (whole : p.buffered = []) (calls : List FsyncCall) :
    (fsyncMachine.after p calls).file = p.file ++ (written p calls).flatMap PersistRecord.line := by
  induction calls generalizing p with
  | nil => simp [written, Machine.collect]
  | cons c calls ih =>
    have records : written p (c :: calls) =
        ⟨p.nextSequence, c.request⟩ :: written (fsyncMachine.step p c).2 calls := rfl
    obtain ⟨whole', line⟩ := step_file whole c
    rw [Machine.after_cons, ih whole', line, records, List.flatMap_cons, List.append_assoc]

/-- What is written is what is returned exactly when no `fsync` raises; otherwise it is more. -/
theorem written_eq_iff (p : AofPersistence) (calls : List FsyncCall) :
    (returned p calls).length ≤ (written p calls).length ∧
      ((written p calls).map PersistRecord.logged = (returned p calls).map PersistRecord.logged ↔
        fsyncMachine.Along (fun p c => ¬ FsyncRaises p c) p calls) := by
  induction calls generalizing p with
  | nil => exact ⟨le_refl _, fun _ => trivial, fun _ => rfl⟩
  | cons c calls ih =>
    obtain ⟨fewer, same⟩ := ih (fsyncMachine.step p c).2
    have made : written p (c :: calls) =
        ⟨p.nextSequence, c.request⟩ :: written (fsyncMachine.step p c).2 calls := rfl
    have given : returned p (c :: calls) =
        returnedRecord (fsyncMachine.step p c).1 ++ returned (fsyncMachine.step p c).2 calls := rfl
    by_cases raises : FsyncRaises p c
    · rw [(step_raises raises).1, List.nil_append] at given
      rw [made, given, List.length_cons]
      refine ⟨by omega, fun equal => ?_, fun along => absurd raises along.1⟩
      have lengths := congrArg List.length equal
      simp only [List.length_map, List.length_cons] at lengths
      omega
    · have first : returnedRecord (fsyncMachine.step p c).1 = [⟨p.nextSequence, c.request⟩] := by
        rw [step_returns raises]
        rfl
      rw [first, List.singleton_append] at given
      rw [made, given]
      refine ⟨Nat.succ_le_succ fewer, ?_⟩
      rw [List.map_cons, List.map_cons, List.cons.injEq, same]
      exact ⟨fun h => ⟨raises, h.2⟩, fun h => ⟨rfl, h.2⟩⟩

/-- The numbers of the records that are returned rise, even past a failure. -/
theorem returned_rising (p : AofPersistence) (calls : List FsyncCall) :
    (∀ record ∈ returned p calls, p.nextSequence ≤ record.sequence) ∧ Rising (returned p calls) := by
  induction calls generalizing p with
  | nil => exact ⟨by rintro record ⟨⟩, List.Pairwise.nil⟩
  | cons c calls ih =>
    obtain ⟨above, rising⟩ := ih (fsyncMachine.step p c).2
    have given : returned p (c :: calls) =
        returnedRecord (fsyncMachine.step p c).1 ++ returned (fsyncMachine.step p c).2 calls := rfl
    by_cases raises : FsyncRaises p c
    · obtain ⟨none, left⟩ := step_raises raises
      have next : (fsyncMachine.step p c).2.nextSequence = p.nextSequence := by rw [left]; rfl
      rw [next] at above
      rw [given, none, List.nil_append]
      exact ⟨above, rising⟩
    · have next : (fsyncMachine.step p c).2.nextSequence = p.nextSequence + 1 := by
        rw [step_returns raises]
        rfl
      have first : returnedRecord (fsyncMachine.step p c).1 = [⟨p.nextSequence, c.request⟩] := by
        rw [step_returns raises]
        rfl
      rw [next] at above
      rw [given, first, List.singleton_append]
      refine ⟨fun record member => ?_, List.pairwise_cons.mpr ⟨fun record member => ?_, rising⟩⟩
      · rcases List.mem_cons.mp member with rfl | member
        · exact le_refl _
        · have := above record member
          omega
      · have := above record member
        show p.nextSequence < record.sequence
        omega

/-- The file's records are the old ones and those the calls returned, whose numbers rise. -/
def NoTrace (old : List PersistRecord) (p : AofPersistence) (calls : List FsyncCall) : Prop :=
  (fsyncMachine.after p calls).replay = old ++ (returned p calls).map PersistRecord.logged ∧
    Rising (returned p calls)

/-- **When a failed append leaves no trace.** On a log of ended lines, for every policy and every run
of calls: the file holds the old records and those that were returned, if and only if no `fsync` of
the run raises. -/
theorem noTrace_iff (lines : List (List Char)) (flat : ∀ line ∈ lines, OneLine line)
    (fsyncPolicy : FsyncPolicy) (fsyncEveryN : Int) (calls : List FsyncCall) :
    let log := opened (linesText lines) fsyncPolicy fsyncEveryN
    NoTrace (lineRecords lines) log calls ↔
      fsyncMachine.Along (fun p c => ¬ FsyncRaises p c) log calls := by
  intro log
  have file : (fsyncMachine.after log calls).file =
      linesText (lines ++ (written log calls).map PersistRecord.text) := by
    rw [after_file rfl, linesText_append, linesText_text]
    rfl
  rw [NoTrace, replay, file, replayText_linesText (oneLine_text flat _), lineRecords_append,
    lineRecords_text, List.append_cancel_left_eq, (written_eq_iff log calls).2]
  exact and_iff_left (returned_rising log calls).2

/-- With `EVERY_N`, an outcome that no call asks for does no harm. -/
theorem unasked_fsync_no_trace :
    NoTrace (lineRecords mixedLines) (opened (linesText mixedLines) .EVERY_N 2)
      [⟨{ command := .SET, args := ["a", "1"] }, .error "Input/output error"⟩,
       ⟨{ command := .DEL, args := ["a"] }, .ok ()⟩] :=
  (noTrace_iff mixedLines mixedLines_oneLine .EVERY_N 2
    [⟨{ command := .SET, args := ["a", "1"] }, .error "Input/output error"⟩,
     ⟨{ command := .DEL, args := ["a"] }, .ok ()⟩]).mpr (by decide +kernel)

/-- A `SET` whose `fsync` raises stays in the file, and the next record has its number. -/
theorem failed_fsync_leaves_record :
    ¬ ∀ (fsyncPolicy : FsyncPolicy) (fsyncEveryN : Int) (calls : List FsyncCall),
      NoTrace [] (opened [] fsyncPolicy fsyncEveryN) calls := by
  intro claim
  obtain ⟨replayed, _⟩ := claim .ALWAYS 100
    [⟨{ command := .SET, args := ["a", "1"] }, .error "Input/output error"⟩,
     ⟨{ command := .SET, args := ["b", "2"] }, .ok ()⟩]
  revert replayed
  decide +kernel

end AofPersistence
end LiteStore
