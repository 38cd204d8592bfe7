import LiteStore.Persistence.Fsync

/-!
# The durability window

What a crash of the machine can cost is what was written after the last `fsync` that succeeded. A
call is given the outcome its `os.fsync` has if it makes one, and answers with what it did to the
file (`FileEvent`). `_writes_since_fsync` counts exactly the writes that no `fsync` covers
(`count_eq_unsynced`), since nothing but an `fsync` that returned sets it back. So the policies
bound that number after every append that returns, and `close` leaves none.
-/

namespace LiteStore
set_option autoImplicit false
open Py

/-- What a call does to the file: the write and flush of a record's line, or an `os.fsync` and
whether it succeeds. -/
inductive FileEvent where
  | write (record : PersistRecord)
  | fsync (succeeds : Bool)
deriving DecidableEq

/-- The writes that no `fsync` covers after an event, from those before it. -/
def FileEvent.uncovered (count : Nat) : FileEvent → Nat
  | .write _ => count + 1
  | .fsync true => 0
  | .fsync false => count

/-- The records written since the last successful `fsync`. -/
def unsynced (events : List FileEvent) : Nat := events.foldl FileEvent.uncovered 0

/-- The calls on an open log. -/
inductive LogOp where
  | append (record : PersistRecord)
  | appendRequest (request : CommandRequest)
  | forceFsync
deriving DecidableEq

/-- A call and the outcome of the `os.fsync` it may make. -/
structure LogCall where
  op : LogOp
  fsync : Except String Unit

/-- What a call returns or raises, and what it does to the file. -/
structure LogAnswer where
  result : Except String (Option PersistRecord)
  events : List FileEvent

namespace AofPersistence

/-- What `append` does to the file, if write and flush go through. -/
def appendEvents (p : AofPersistence) (record : PersistRecord) (fsync : Except String Unit) : List FileEvent :=
  .write record :: if (p.flushed record).fsyncDue then [.fsync fsync.isOk] else []

/-- What `close` does to the file. -/
def closeEvents (p : AofPersistence) (fsync : Except String Unit) : List FileEvent :=
  if p.ClosingSyncs then [.fsync fsync.isOk] else []

/-- Make a call. -/
def performLog (p : AofPersistence) (c : LogCall) : LogAnswer × AofPersistence :=
  match c.op with
  | .append record =>
    let (result, left) := p.append record (.flushed c.fsync)
    (⟨result.map fun _ => none, p.appendEvents record c.fsync⟩, left)
  | .appendRequest request =>
    let (result, left) := p.appendRequest request (.flushed c.fsync)
    (⟨result.map some, p.appendEvents ⟨p.nextSequence, request⟩ c.fsync⟩, left)
  | .forceFsync =>
    let (result, left) := p.forceFsync c.fsync
    (⟨result.map fun _ => none, [.fsync c.fsync.isOk]⟩, left)

/-- The log as a machine on calls. -/
def logMachine : Machine AofPersistence LogCall LogAnswer := ⟨performLog⟩

/-- What the calls of a run do to the file, in order. -/
def fileEvents (p : AofPersistence) (calls : List LogCall) : List FileEvent :=
  logMachine.collect (fun p c => (p.performLog c).1.events) p calls

/-! ## One call -/

variable {p : AofPersistence}

/-- Both ways to append make the same append, of a record of their own. -/
theorem performLog_append {c : LogCall} (appends : c.op ≠ .forceFsync) :
    ∃ record next, (p.performLog c).1.result.isOk = (p.append record (.flushed c.fsync)).1.isOk ∧
      (p.performLog c).1.events = p.appendEvents record c.fsync ∧
      (p.performLog c).2 = { (p.append record (.flushed c.fsync)).2 with nextSequence := next } := by
  obtain ⟨op, fsync⟩ := c
  cases op with
  | append record =>
    refine ⟨record, _, ?_, rfl, rfl⟩
    show ((p.append record (.flushed fsync)).1.map _).isOk = _
    cases (p.append record (.flushed fsync)).1 <;> rfl
  | appendRequest request =>
    refine ⟨⟨p.nextSequence, request⟩, (p.performLog ⟨.appendRequest request, fsync⟩).2.nextSequence, ?_, rfl, ?_⟩
    all_goals
      simp only [performLog, appendRequest]
      rcases p.append ⟨p.nextSequence, request⟩ (.flushed fsync) with ⟨text | _, left⟩ <;> rfl
  | forceFsync => exact absurd rfl appends

/-- The count of an append that returns. -/
theorem append_count {record : PersistRecord} {fsync : Except String Unit}
    (returns : (p.append record (.flushed fsync)).1.isOk = true) :
    (p.append record (.flushed fsync)).2.writesSinceFsync = p.writesAfter := by
  rw [p.writesAfter_eq record]
  simp only [append, sync] at returns ⊢
  cases due : (p.flushed record).fsyncDue with
  | false => simp [flushed]
  | true =>
    cases fsync with
    | error text => simp [due, Except.isOk, Except.toBool] at returns
    | ok _ => simp

/-- An `os.fsync` keeps policy and threshold, and sets the count back if it succeeds. -/
theorem sync_count {n : Nat} (counted : p.writesSinceFsync = n) (fsync : Except String Unit) :
    (p.sync fsync).2.fsyncPolicy = p.fsyncPolicy ∧ (p.sync fsync).2.fsyncEveryN = p.fsyncEveryN ∧
      (p.sync fsync).2.writesSinceFsync = ((FileEvent.fsync fsync.isOk).uncovered n : Nat) := by
  cases fsync with
  | error text => exact ⟨rfl, rfl, counted⟩
  | ok _ => exact ⟨rfl, rfl, rfl⟩

/-- A call keeps policy and threshold, and its count is what its events leave uncovered. -/
theorem performLog_count {n : Nat} (counted : p.writesSinceFsync = n) (c : LogCall) :
    (p.performLog c).2.fsyncPolicy = p.fsyncPolicy ∧ (p.performLog c).2.fsyncEveryN = p.fsyncEveryN ∧
      (p.performLog c).2.writesSinceFsync = ((p.performLog c).1.events.foldl FileEvent.uncovered n : Nat) := by
  have append (record : PersistRecord) (fsync : Except String Unit) :
      (p.append record (.flushed fsync)).2.fsyncPolicy = p.fsyncPolicy ∧
        (p.append record (.flushed fsync)).2.fsyncEveryN = p.fsyncEveryN ∧
        (p.append record (.flushed fsync)).2.writesSinceFsync =
          ((p.appendEvents record fsync).foldl FileEvent.uncovered n : Nat) := by
    have written : (p.flushed record).writesSinceFsync = ((n + 1 : Nat) : Int) := by
      rw [flushed, counted]
      rfl
    cases due : (p.flushed record).fsyncDue with
    | false =>
      simp only [AofPersistence.append, appendEvents, due]
      exact ⟨rfl, rfl, written⟩
    | true =>
      simp only [AofPersistence.append, appendEvents, due]
      exact sync_count written fsync
  by_cases appends : c.op = .forceFsync
  · obtain ⟨op, fsync⟩ := c
    cases appends
    exact sync_count (p := { p with file := p.file ++ p.buffered, buffered := [] }) counted fsync
  · obtain ⟨record, next, _, events, left⟩ := performLog_append (p := p) appends
    rw [events, left]
    exact append record c.fsync

/-! ## Runs -/

/-- **The count is the window.** After any calls, the log counts what they left uncovered. -/
theorem count_eq_unsynced {n : Nat} (counted : p.writesSinceFsync = n) (calls : List LogCall) :
    (logMachine.after p calls).fsyncPolicy = p.fsyncPolicy ∧
      (logMachine.after p calls).fsyncEveryN = p.fsyncEveryN ∧
      (logMachine.after p calls).writesSinceFsync =
        ((fileEvents p calls).foldl FileEvent.uncovered n : Nat) := by
  induction calls generalizing p n with
  | nil => exact ⟨rfl, rfl, counted⟩
  | cons c calls ih =>
    obtain ⟨policy, every, count⟩ := performLog_count counted c
    obtain ⟨policy', every', count'⟩ := ih count
    refine ⟨policy'.trans policy, every'.trans every, ?_⟩
    have events : fileEvents p (c :: calls) =
        (p.performLog c).1.events ++ fileEvents (p.performLog c).2 calls := rfl
    rw [events, List.foldl_append]
    exact count'

theorem unsynced_append (events more : List FileEvent) :
    unsynced (events ++ more) = more.foldl FileEvent.uncovered (unsynced events) := by
  rw [unsynced, List.foldl_append]
  rfl

/-- What a policy with the threshold `n` promises of a log after some calls, which did `events` to
the file, whatever call is next. -/
structure Durable (policy : FsyncPolicy) (n : Int) (p : AofPersistence) (events : List FileEvent) :
    Prop where
  /-- After an append that returns. -/
  appended : ∀ c : LogCall, c.op ≠ .forceFsync → (p.performLog c).1.result.isOk = true →
    (policy = .ALWAYS → unsynced (events ++ (p.performLog c).1.events) = 0) ∧
      (policy = .EVERY_N → (unsynced (events ++ (p.performLog c).1.events) : Int) ≤ n - 1)
  /-- After a `close` that returns. -/
  closed : ∀ fsync, (p.close fsync).isOk = true → policy ≠ .NEVER →
    unsynced (events ++ p.closeEvents fsync) = 0
  /-- Only `force_fsync` makes an `fsync` under `NEVER`. -/
  never : policy = .NEVER → ∀ succeeds, (∀ c : LogCall, c.op ≠ .forceFsync →
    .fsync succeeds ∉ (p.performLog c).1.events) ∧ ∀ fsync, .fsync succeeds ∉ p.closeEvents fsync

/-- The window after an append that returns. -/
theorem append_unsynced {events : List FileEvent} (count : p.writesSinceFsync = (unsynced events : Nat))
    {c : LogCall} (appends : c.op ≠ .forceFsync) (returns : (p.performLog c).1.result.isOk = true) :
    (unsynced (events ++ (p.performLog c).1.events) : Int) = p.writesAfter := by
  obtain ⟨record, next, result, _, left⟩ := performLog_append (p := p) appends
  have after := (performLog_count count c).2.2
  rw [left] at after
  rw [result] at returns
  rw [unsynced_append]
  exact after.symm.trans (append_count returns)

/-- A `close` that returns leaves no window, but under `NEVER`. -/
theorem close_unsynced {events : List FileEvent} (count : p.writesSinceFsync = (unsynced events : Nat))
    (synced : p.fsyncPolicy ≠ .NEVER) {fsync : Except String Unit}
    (returns : (p.close fsync).isOk = true) : unsynced (events ++ p.closeEvents fsync) = 0 := by
  rw [unsynced_append]
  unfold close at returns
  unfold closeEvents
  split at returns
  · rename_i due
    rw [if_pos due]
    cases fsync with
    | error text => cases returns
    | ok _ => rfl
  · rename_i covered
    rw [if_neg covered]
    have covered : ¬ p.writesSinceFsync > 0 := fun more => covered ⟨more, synced⟩
    show unsynced events = 0
    omega

/-- No append makes an `fsync` under `NEVER`. -/
theorem append_quiet (never : p.fsyncPolicy = .NEVER) {c : LogCall} (appends : c.op ≠ .forceFsync)
    (succeeds : Bool) : .fsync succeeds ∉ (p.performLog c).1.events := by
  obtain ⟨record, _, _, made, _⟩ := performLog_append (p := p) appends
  have quiet : (p.flushed record).fsyncDue = false := by
    rw [fsyncDue, show (p.flushed record).fsyncPolicy = .NEVER from never]
  rw [made, appendEvents, quiet]
  simp

/-- Policy, threshold and count after some calls on a log. -/
theorem opened_count (file : List Char) (policy : FsyncPolicy) (n : Int) (calls : List LogCall) :
    let log := opened file policy n
    (logMachine.after log calls).fsyncPolicy = policy ∧ (logMachine.after log calls).fsyncEveryN = n ∧
      (logMachine.after log calls).writesSinceFsync = (unsynced (fileEvents log calls) : Nat) :=
  count_eq_unsynced (n := 0) rfl calls

/-- The window of an append that returns after some calls. -/
theorem append_window (file : List Char) (policy : FsyncPolicy) {n : Int} (positive : 1 ≤ n)
    (calls : List LogCall) {c : LogCall} (appends : c.op ≠ .forceFsync)
    (returns : ((logMachine.after (opened file policy n) calls).performLog c).1.result.isOk = true) :
    let window := unsynced (fileEvents (opened file policy n) calls ++
      ((logMachine.after (opened file policy n) calls).performLog c).1.events)
    (policy = .ALWAYS → window = 0) ∧ (policy = .EVERY_N → (window : Int) ≤ n - 1) := by
  obtain ⟨kept, every, count⟩ := opened_count file policy n calls
  have window := append_unsynced count appends returns
  rw [writesAfter, kept, every] at window
  refine ⟨?_, ?_⟩
  · rintro rfl
    dsimp only at window ⊢
    omega
  · rintro rfl
    dsimp only at window ⊢
    split at window <;> omega

/-- **The durability window** of the policies: after any calls on a log, whatever the outcome of any
`fsync`. -/
theorem durability_window (file : List Char) (policy : FsyncPolicy) (n : Int) (positive : 1 ≤ n)
    (calls : List LogCall) :
    let log := opened file policy n
    Durable policy n (logMachine.after log calls) (fileEvents log calls) := by
  intro log
  obtain ⟨kept, _, count⟩ := opened_count file policy n calls
  refine ⟨fun c appends returns => append_window file policy positive calls appends returns,
    fun fsync returns synced => close_unsynced count (by rw [kept]; exact synced) returns,
    fun never succeeds => ⟨fun c appends => append_quiet (kept.trans never) appends succeeds, fun fsync => ?_⟩⟩
  rw [closeEvents, if_neg fun due => due.2 (kept.trans never)]
  exact List.not_mem_nil

/-- Two writes, a forced `fsync` that raises, one that succeeds, and two more writes. -/
def windowCalls : List LogCall :=
  [⟨.appendRequest { command := .SET, args := ["a", "1"] }, .ok ()⟩,
   ⟨.append ⟨7, { command := .DEL, args := ["a"] }⟩, .ok ()⟩,
   ⟨.forceFsync, .error "Input/output error"⟩,
   ⟨.forceFsync, .ok ()⟩, ⟨.appendRequest { command := .SET, args := ["b", "2"] }, .ok ()⟩]

theorem every_third_write_window :
    let log := opened [] .EVERY_N 3
    Durable .EVERY_N 3 (logMachine.after log windowCalls) (fileEvents log windowCalls) :=
  durability_window [] .EVERY_N 3 (by decide) windowCalls

example : unsynced (fileEvents (opened [] .EVERY_N 3) windowCalls) = 1 := by decide

end AofPersistence
end LiteStore
