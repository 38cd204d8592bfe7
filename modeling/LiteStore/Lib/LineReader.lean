import Mathlib.Data.List.Infix
import Mathlib.Data.List.TakeDrop

/-!
# Lines from a stream that arrives in pieces

A reader buffers what arrives and hands it out line by line. `readline` gives the next line with its
separator, at the end of the stream what is left without one, and nothing while the line is
incomplete; a line of more than `limit` elements before its separator is an overrun.

`chop` cuts a whole stream into lines. `Reads` relates the lines handed out so far, what is left and
what arrived: whatever arrives from then on, the lines so far and the lines of the rest are the
lines of everything. Each operation keeps it, so the lines do not depend on the pieces.
-/

set_option autoImplicit false

/-- What arrived and was not handed out, and whether the stream has ended. -/
structure LineReader (α : Type) where
  buffer : List α
  eof : Bool

namespace LineReader
variable {α : Type}

/-- What a call of `readline` gives. -/
inductive Outcome (α : Type) where
  | waits
  | line (raw : List α)
  | overrun

def fresh : LineReader α := ⟨[], false⟩

/-- A piece of the stream arrives. -/
def feed (r : LineReader α) (data : List α) : LineReader α := { r with buffer := r.buffer ++ data }

/-- The stream has ended. -/
def feedEof (r : LineReader α) : LineReader α := { r with eof := true }

/-- The stream has ended and everything was handed out. -/
def atEof (r : LineReader α) : Bool := r.eof && r.buffer.isEmpty

variable [DecidableEq α] (sep : α) (limit : Nat)

/-- The next line. -/
def readline (r : LineReader α) : Outcome α × LineReader α :=
  match r.buffer.idxOf? sep with
  | some found =>
    if limit < found then (.overrun, { r with buffer := r.buffer.drop (found + 1) })
    else (.line (r.buffer.take (found + 1)), { r with buffer := r.buffer.drop (found + 1) })
  | none =>
    if limit < r.buffer.length then (.overrun, { r with buffer := [] })
    else if r.eof then (.line r.buffer, { r with buffer := [] })
    else (.waits, r)

/-- The lines of a whole stream, each with its separator; the last may have none. -/
def chop : List α → List (List α)
  | [] => []
  | a :: stream =>
    if a = sep then [a] :: chop stream
    else match chop stream with
      | [] => [[a]]
      | line :: lines => (a :: line) :: lines

/-- The stream begins with more than `limit` elements before a separator. -/
def Overlong (stream : List α) : Prop :=
  ∃ body, body <+: stream ∧ sep ∉ body ∧ limit < body.length

variable {sep limit}

@[simp] theorem chop_nil : chop sep ([] : List α) = [] := rfl

theorem chop_line {body : List α} (free : sep ∉ body) (rest : List α) :
    chop sep (body ++ sep :: rest) = (body ++ [sep]) :: chop sep rest := by
  induction body with
  | nil => simp [chop]
  | cons a body ih =>
    rw [List.mem_cons, not_or] at free
    rw [List.cons_append, chop, if_neg (Ne.symm free.1), ih free.2]
    rfl

theorem chop_last {body : List α} (free : sep ∉ body) (some : body ≠ []) : chop sep body = [body] := by
  induction body with
  | nil => exact absurd rfl some
  | cons a body ih =>
    rw [List.mem_cons, not_or] at free
    rw [chop, if_neg (Ne.symm free.1)]
    cases body with
    | nil => rfl
    | cons b body => rw [ih free.2 (List.cons_ne_nil b body)]

/-- A separator is the last element of its line. -/
theorem mem_chop {stream line : List α} (m : line ∈ chop sep stream) :
    ∃ body, sep ∉ body ∧ (line = body ++ [sep] ∨ line = body ∧ body ≠ []) := by
  induction stream generalizing line with
  | nil => cases m
  | cons a stream ih =>
    rw [chop] at m
    split at m
    · rename_i same
      rcases List.mem_cons.mp m with rfl | later
      · exact ⟨[], List.not_mem_nil, .inl (same ▸ rfl)⟩
      · exact ih later
    · rename_i other
      have begun {body : List α} (free : sep ∉ body) : sep ∉ a :: body := by
        rw [List.mem_cons, not_or]
        exact ⟨Ne.symm other, free⟩
      cases lines : chop sep stream with
      | nil =>
        rw [lines] at m
        rw [List.mem_singleton.mp m]
        exact ⟨[a], begun List.not_mem_nil, .inr ⟨rfl, List.cons_ne_nil _ _⟩⟩
      | cons first lines' =>
        rw [lines] at m ih
        rcases List.mem_cons.mp m with rfl | later
        · obtain ⟨body, free, shape⟩ := ih List.mem_cons_self
          refine ⟨a :: body, begun free, ?_⟩
          rcases shape with rfl | ⟨rfl, _⟩
          · exact .inl rfl
          · exact .inr ⟨rfl, List.cons_ne_nil _ _⟩
        · exact ih (List.mem_cons_of_mem _ later)

variable (sep limit) in
/-- All that a call of `readline` can do. -/
theorem readline_cases (r : LineReader α) :
    (∃ body rest, r.buffer = body ++ sep :: rest ∧ sep ∉ body ∧ body.length ≤ limit ∧
      r.readline sep limit = (.line (body ++ [sep]), { r with buffer := rest })) ∨
    (sep ∉ r.buffer ∧ r.eof = true ∧
      r.readline sep limit = (.line r.buffer, { r with buffer := [] })) ∨
    (Overlong sep limit r.buffer ∧ (r.readline sep limit).1 = .overrun) ∨
    (sep ∉ r.buffer ∧ r.eof = false ∧ r.readline sep limit = (.waits, r)) := by
  unfold readline
  cases searched : r.buffer.idxOf? sep with
  | none =>
    have free : sep ∉ r.buffer := List.idxOf?_eq_none_iff.mp searched
    dsimp only
    split
    · rename_i long
      exact .inr (.inr (.inl ⟨⟨r.buffer, List.prefix_rfl, free, long⟩, rfl⟩))
    · split
      · rename_i ended
        exact .inr (.inl ⟨free, ended, rfl⟩)
      · rename_i more
        exact .inr (.inr (.inr ⟨free, eq_false_of_ne_true more, rfl⟩))
  | some found =>
    obtain ⟨short, there, before⟩ := List.idxOf?_eq_some_iff.mp searched
    have free : sep ∉ r.buffer.take found := by
      intro m
      obtain ⟨j, bound, same⟩ := List.getElem_of_mem m
      rw [List.length_take] at bound
      rw [List.getElem_take] at same
      exact before j (by omega) same
    have whole : r.buffer = r.buffer.take found ++ sep :: r.buffer.drop (found + 1) := by
      rw [← there, ← List.drop_eq_getElem_cons short, List.take_append_drop]
    have size : (r.buffer.take found).length = found := List.length_take_of_le short.le
    dsimp only
    split
    · rename_i long
      exact .inr (.inr (.inl ⟨⟨_, List.take_prefix _ _, free, by omega⟩, rfl⟩))
    · refine .inl ⟨r.buffer.take found, r.buffer.drop (found + 1), whole, free, by omega, ?_⟩
      rw [List.take_succ_eq_append_getElem short, there]

theorem readline_eof (r : LineReader α) : (r.readline sep limit).2.eof = r.eof := by
  unfold readline
  split
  · split <;> rfl
  · split
    · rfl
    · split <;> rfl

/-- The lines handed out so far, what is left of the stream, and all that arrived: whatever else
arrives, the lines of everything are these and the lines of the rest. -/
def Reads (sep : α) (eof : Bool) (lines : List (List α)) (rest arrived : List α) : Prop :=
  ∀ more, (eof = true → more = []) → chop sep (arrived ++ more) = lines ++ chop sep (rest ++ more)

theorem reads_fresh : Reads sep false [] ([] : List α) [] := fun _ _ => rfl

variable {eof : Bool} {lines : List (List α)} {rest arrived : List α}

theorem Reads.feed (h : Reads sep false lines rest arrived) (data : List α) :
    Reads sep false lines (rest ++ data) (arrived ++ data) := by
  intro more _
  rw [List.append_assoc, List.append_assoc]
  exact h (data ++ more) fun ended => by cases ended

theorem Reads.feedEof (h : Reads sep eof lines rest arrived) : Reads sep true lines rest arrived :=
  fun more last => h more fun _ => last rfl

theorem Reads.line {body : List α} (h : Reads sep eof lines (body ++ sep :: rest) arrived)
    (free : sep ∉ body) : Reads sep eof (lines ++ [body ++ [sep]]) rest arrived := by
  intro more last
  rw [h more last, List.append_assoc, List.cons_append, chop_line free, List.append_assoc]
  rfl

theorem Reads.last (h : Reads sep true lines rest arrived) (free : sep ∉ rest) (some : rest ≠ []) :
    Reads sep true (lines ++ [rest]) [] arrived := by
  intro more last
  have ended := last rfl
  rw [h more last, ended, List.append_nil, chop_last free some, List.nil_append, chop_nil, List.append_nil]

/-- The lines so far and those of what is left are the lines of what arrived. -/
theorem Reads.lines_eq (h : Reads sep eof lines rest arrived) :
    chop sep arrived = lines ++ chop sep rest := by
  have now := h [] fun _ => rfl
  rwa [List.append_nil, List.append_nil] at now

end LineReader
