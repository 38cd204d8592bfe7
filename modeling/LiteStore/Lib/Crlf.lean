import Mathlib.Data.List.Basic

/-!
# Lines that end in CR LF

A text of lines, each ended by CR LF, and its reader, which splits at every CR LF. Where no line
has a line feed of its own, the text has one pair for each line (`count_framed`) and the reader
gets the lines back (`splitPairs_framed`), whatever carriage returns the lines hold.

A message of several lines starts with a line that says how many others belong to it. A reader that
counts gets the messages back (`messages_flatten`).
-/

namespace Crlf
set_option autoImplicit false

/-- The text of the lines. -/
def framed (lines : List (List Char)) : List Char := lines.flatMap fun line => line ++ ['\r', '\n']

/-- The pieces between the pairs; after the last pair comes one more. -/
def splitPairs : List Char → List (List Char)
  | [] => [[]]
  | '\r' :: '\n' :: rest => [] :: splitPairs rest
  | c :: rest =>
    match splitPairs rest with
    | [] => [[c]]
    | line :: lines => (c :: line) :: lines

/-- The number of pairs. -/
def countPairs : List Char → Nat
  | [] => 0
  | '\r' :: '\n' :: rest => countPairs rest + 1
  | _ :: rest => countPairs rest

theorem framed_cons (line : List Char) (lines : List (List Char)) :
    framed (line :: lines) = line ++ '\r' :: '\n' :: framed lines := by
  simp [framed]

theorem framed_append (lines lines' : List (List Char)) :
    framed (lines ++ lines') = framed lines ++ framed lines' := List.flatMap_append

theorem splitPairs_line {line : List Char} (free : '\n' ∉ line) (rest : List Char) :
    splitPairs (line ++ '\r' :: '\n' :: rest) = line :: splitPairs rest := by
  induction line with
  | nil => rw [List.nil_append, splitPairs]
  | cons c line ih =>
    rw [List.mem_cons, not_or] at free
    rw [List.cons_append, splitPairs, ih free.2]
    -- What follows `c` is not a line feed, so `c` starts no pair.
    rintro more - pair
    cases line with
    | nil => cases pair
    | cons d line =>
      cases pair
      exact free.2 (by simp)

theorem countPairs_line {line : List Char} (free : '\n' ∉ line) (rest : List Char) :
    countPairs (line ++ '\r' :: '\n' :: rest) = countPairs rest + 1 := by
  induction line with
  | nil => rw [List.nil_append, countPairs]
  | cons c line ih =>
    rw [List.mem_cons, not_or] at free
    rw [List.cons_append, countPairs, ih free.2]
    rintro more - pair
    cases line with
    | nil => cases pair
    | cons d line =>
      cases pair
      exact free.2 (by simp)

/-- **The reader** gets the lines back. -/
theorem splitPairs_framed {lines : List (List Char)} (free : ∀ line ∈ lines, '\n' ∉ line) :
    splitPairs (framed lines) = lines ++ [[]] := by
  induction lines with
  | nil => rfl
  | cons line lines ih =>
    rw [framed_cons, splitPairs_line (free line (by simp)), ih fun l m => free l (by simp [m])]
    rfl

theorem countPairs_framed {lines : List (List Char)} (free : ∀ line ∈ lines, '\n' ∉ line) :
    countPairs (framed lines) = lines.length := by
  induction lines with
  | nil => rfl
  | cons line lines ih =>
    rw [framed_cons, countPairs_line (free line (by simp)), ih fun l m => free l (by simp [m])]
    rfl

theorem framed_inj {lines lines' : List (List Char)} (free : ∀ line ∈ lines, '\n' ∉ line)
    (free' : ∀ line ∈ lines', '\n' ∉ line) (same : framed lines = framed lines') : lines = lines' := by
  have pieces := splitPairs_framed free
  rw [same, splitPairs_framed free'] at pieces
  exact (List.append_cancel_right pieces).symm

/-- The last pair is the end of the text. -/
theorem framed_suffix {lines : List (List Char)} (some : lines ≠ []) : ['\r', '\n'] <:+ framed lines := by
  obtain ⟨init, last, rfl⟩ : ∃ init last, lines = init ++ [last] :=
    ⟨lines.dropLast, lines.getLast some, (List.dropLast_concat_getLast some).symm⟩
  refine ⟨framed init ++ last, ?_⟩
  rw [framed_append, framed_cons]
  simp [framed]

/-! ## Messages -/

variable {α : Type} (more : α → Nat)

/-- Read messages: a line, and as many further lines as `more` says of it. -/
def readMessages : Nat → List α → List (List α)
  | 0, _ => []
  | _, [] => []
  | fuel + 1, line :: lines =>
    (line :: lines.take (more line)) :: readMessages fuel (lines.drop (more line))

/-- The messages of lines; there are no more of them than lines. -/
def messages (lines : List α) : List (List α) := readMessages more lines.length lines

/-- A message has the lines its first one says it has. -/
def Whole (message : List α) : Prop :=
  ∃ line lines, message = line :: lines ∧ lines.length = more line

theorem messages_flatten {sent : List (List α)} (whole : ∀ message ∈ sent, Whole more message) :
    messages more sent.flatten = sent := by
  have read (fuel : Nat) (enough : sent.flatten.length ≤ fuel) :
      readMessages more fuel sent.flatten = sent := by
    induction sent generalizing fuel with
    | nil => cases fuel <;> rfl
    | cons message sent ih =>
      obtain ⟨line, lines, rfl, counted⟩ := whole message (by simp)
      rw [List.flatten_cons, List.cons_append] at enough ⊢
      cases fuel with
      | zero => simp at enough
      | succ fuel =>
        rw [readMessages, ← counted, List.take_left, List.drop_left,
          ih (fun message m => whole message (by simp [m])) fuel ?_]
        rw [List.length_cons, List.length_append] at enough
        omega
  exact read _ (Nat.le_refl _)

end Crlf
