import LiteStore.Lib.Span
import LiteStore.Py.Text
import Mathlib.Data.List.DropRight
import Mathlib.Data.List.TakeWhile

/-!
# Words of a text

`text.split()` and `text.split(maxsplit=n)` at white space, and what `strip` and the words leave
of the text: their characters are characters of the text, the words are the first one and those of
what follows it, and white space around the text plays no part. Numbers are written without a line
feed.
-/

namespace Py
set_option autoImplicit false

/-- `text.split(maxsplit=n)`: up to `n` words, and after them the rest from its first
character that is not white. -/
def splitMax (n : Nat) (text : List Char) : List (List Char) :=
  match text.dropWhile isSpace with
  | [] => []
  | c :: rest =>
    match n with
    | 0 => [c :: rest]
    | n + 1 =>
      (c :: rest).takeWhile (fun c => !isSpace c) ::
        splitMax n ((c :: rest).dropWhile fun c => !isSpace c)

/-- `text.split()`; a text has no more words than characters. -/
def split (text : List Char) : List (List Char) := splitMax text.length text

example : splitMax 2 "SET  key a value ".toList = ["SET".toList, "key".toList, "a value ".toList] := by
  decide

theorem splitMax_subset {n : Nat} {text w : List Char} (m : w ∈ splitMax n text) : w ⊆ text := by
  induction n generalizing text with
  | zero =>
    unfold splitMax at m
    cases trimmed : text.dropWhile isSpace with
    | nil => simp [trimmed] at m
    | cons c rest =>
      simp only [trimmed, List.mem_singleton] at m
      rw [m, ← trimmed]
      exact (List.dropWhile_sublist _).subset
  | succ n ih =>
    unfold splitMax at m
    cases trimmed : text.dropWhile isSpace with
    | nil => simp [trimmed] at m
    | cons c rest =>
      have kept : c :: rest ⊆ text := trimmed ▸ (List.dropWhile_sublist isSpace).subset
      simp only [trimmed] at m
      rcases List.mem_cons.mp m with first | later
      · rw [first]
        exact List.Subset.trans (List.takeWhile_prefix _).subset kept
      · exact List.Subset.trans (ih later) (List.Subset.trans (List.dropWhile_sublist _).subset kept)

theorem split_subset {text w : List Char} (m : w ∈ split text) : w ⊆ text := splitMax_subset m

theorem strip_subset (text : List Char) : strip text ⊆ text := by
  intro c m
  rw [strip, List.mem_reverse] at m
  have := (List.dropWhile_sublist isSpace).subset m
  rw [List.mem_reverse] at this
  exact (List.dropWhile_sublist isSpace).subset this

/-- White space at the end is stripped. -/
theorem strip_append_white (text : List Char) {c : Char} (white : isSpace c = true) :
    strip (text ++ [c]) = strip text := by
  unfold strip
  rw [List.dropWhile_append]
  split
  · rename_i all
    rw [List.isEmpty_iff.mp all]
    simp [white]
  · rw [List.reverse_append, List.reverse_singleton, List.singleton_append, List.dropWhile_cons,
      if_pos white]

/-! ## Word by word -/

/-- White space only. -/
def Blank (text : List Char) : Prop := ∀ c ∈ text, isSpace c = true

/-- The first word. -/
def firstWord (text : List Char) : List Char :=
  (text.dropWhile isSpace).takeWhile fun c => !isSpace c

/-- What follows the first word. -/
def afterFirst (text : List Char) : List Char :=
  (text.dropWhile isSpace).dropWhile fun c => !isSpace c

theorem blank_takeWhile (text : List Char) : Blank (text.takeWhile isSpace) := fun _ m =>
  List.mem_takeWhile_imp m

theorem dropWhile_blank {text : List Char} : text.dropWhile isSpace = [] ↔ Blank text := by
  rw [List.dropWhile_eq_nil_iff]
  rfl

/-- White space, a word, the rest. -/
theorem text_parts (text : List Char) :
    text = text.takeWhile isSpace ++ firstWord text ++ afterFirst text := by
  rw [firstWord, afterFirst, List.append_assoc, List.takeWhile_append_dropWhile,
    List.takeWhile_append_dropWhile]

theorem splitMax_zero {text : List Char} (word : text.dropWhile isSpace ≠ []) :
    splitMax 0 text = [text.dropWhile isSpace] := by
  obtain ⟨c, rest, trimmed⟩ := List.exists_cons_of_ne_nil word
  rw [splitMax.eq_def, trimmed]

theorem splitMax_nil {n : Nat} {text : List Char} (blank : text.dropWhile isSpace = []) :
    splitMax n text = [] := by
  rw [splitMax.eq_def, blank]

theorem splitMax_succ {text : List Char} (word : text.dropWhile isSpace ≠ []) (n : Nat) :
    splitMax (n + 1) text = firstWord text :: splitMax n (afterFirst text) := by
  obtain ⟨c, rest, trimmed⟩ := List.exists_cons_of_ne_nil word
  rw [splitMax, firstWord, afterFirst, trimmed]

/-- A word that begins is not empty. -/
theorem length_afterFirst {text : List Char} (word : text.dropWhile isSpace ≠ []) :
    (afterFirst text).length < text.length := by
  have visible := List.head_dropWhile_not isSpace word
  obtain ⟨c, rest, trimmed⟩ := List.exists_cons_of_ne_nil word
  have shorter := (List.dropWhile_sublist isSpace (l := text)).length_le
  have last := (List.dropWhile_sublist (fun c => !isSpace c) (l := rest)).length_le
  simp only [trimmed, List.head_cons] at visible
  rw [afterFirst, trimmed, List.dropWhile_cons_of_pos (by simp [visible])]
  rw [trimmed, List.length_cons] at shorter
  omega

/-- A limit that the words cannot reach plays no part. -/
theorem splitMax_enough {n m : Nat} {text : List Char} (few : text.length ≤ n)
    (some : text.length ≤ m) : splitMax n text = splitMax m text := by
  induction n generalizing m text with
  | zero =>
    have none : text = [] := List.eq_nil_of_length_eq_zero (by omega)
    rw [none, splitMax_nil rfl, splitMax_nil rfl]
  | succ n ih =>
    by_cases word : text.dropWhile isSpace = []
    · rw [splitMax_nil word, splitMax_nil word]
    · have shorter := length_afterFirst word
      obtain ⟨m, rfl⟩ := Nat.exists_eq_add_of_lt (show 0 < m by omega)
      rw [Nat.zero_add, splitMax_succ word, splitMax_succ word, ih (m := m) (by omega) (by omega)]

/-- The words are the first one and those of the rest. -/
theorem split_cons {text : List Char} (word : text.dropWhile isSpace ≠ []) :
    split text = firstWord text :: split (afterFirst text) := by
  have shorter := length_afterFirst word
  have more : split text = splitMax (text.length + 1) text := splitMax_enough (le_refl _) (by omega)
  rw [more, splitMax_succ word, split]
  exact congrArg _ (splitMax_enough (by omega) (le_refl _))

theorem split_nil {text : List Char} : split text = [] ↔ text.dropWhile isSpace = [] := by
  constructor
  · intro none
    by_contra word
    rw [split_cons word] at none
    cases none
  · exact fun blank => splitMax_nil blank

/-- White space in front is no word. -/
theorem split_dropWhile (text : List Char) : split (text.dropWhile isSpace) = split text := by
  have idle : (text.dropWhile isSpace).dropWhile isSpace = text.dropWhile isSpace :=
    List.dropWhile_idempotent _ _
  by_cases word : text.dropWhile isSpace = []
  · rw [split_nil.mpr word, split_nil.mpr (idle.trans word)]
  · rw [split_cons word, split_cons (idle.trans_ne word), firstWord, afterFirst, idle]
    rfl

/-- White space at the end is no word. -/
theorem split_append_blank (text : List Char) {white : List Char} (blank : Blank white) :
    split (text ++ white) = split text := by
  have stop : white.takeWhile (fun c => !isSpace c) = [] ∧
      white.dropWhile (fun c => !isSpace c) = white := by
    cases white with
    | nil => exact ⟨rfl, rfl⟩
    | cons c white => simp [blank c (by simp)]
  induction h : text.length using Nat.strong_induction_on generalizing text with
  | _ n ih =>
    by_cases word : text.dropWhile isSpace = []
    · have both : (text ++ white).dropWhile isSpace = [] := by
        rw [List.dropWhile_append, word]
        exact dropWhile_blank.mpr blank
      rw [split_nil.mpr word, split_nil.mpr both]
    · have trimmed : (text ++ white).dropWhile isSpace = text.dropWhile isSpace ++ white := by
        rw [List.dropWhile_append]
        simp [word]
      have first : firstWord (text ++ white) = firstWord text := by
        rw [firstWord, trimmed, List.takeWhile_append, stop.1, List.append_nil]
        split
        · rename_i whole
          exact ((List.takeWhile_prefix _).eq_of_length whole).symm
        · rfl
      have rest : afterFirst (text ++ white) = afterFirst text ++ white := by
        rw [afterFirst, trimmed, List.dropWhile_append, stop.2]
        split
        · rename_i whole
          rw [afterFirst, List.isEmpty_iff.mp whole, List.nil_append]
        · rfl
      have word' : (text ++ white).dropWhile isSpace ≠ [] := by simp [trimmed, word]
      rw [split_cons word, split_cons word', first, rest,
        ih _ (h ▸ length_afterFirst word) (afterFirst text) rfl]

/-- A word with a space behind it. -/
theorem split_word {word : List Char} (nonempty : word ≠ []) (dark : ∀ c ∈ word, isSpace c = false)
    (rest : List Char) : split (word ++ ' ' :: rest) = word :: split rest := by
  have trimmed : (word ++ ' ' :: rest).dropWhile isSpace = word ++ ' ' :: rest := by
    obtain ⟨c, word, rfl⟩ := List.exists_cons_of_ne_nil nonempty
    exact List.dropWhile_cons_of_neg (by simp [dark c List.mem_cons_self])
  have visible : ∀ c ∈ word, (!isSpace c) = true := fun c m => by rw [dark c m]; rfl
  have first : firstWord (word ++ ' ' :: rest) = word := by
    rw [firstWord, trimmed]
    exact Span.takeWhile_stop visible rfl rest
  have left : afterFirst (word ++ ' ' :: rest) = ' ' :: rest := by
    rw [afterFirst, trimmed]
    exact Span.dropWhile_stop visible rfl rest
  rw [split_cons (by rw [trimmed]; simp), first, left, ← split_dropWhile]
  congr 1
  exact split_dropWhile rest

theorem split_single {word : List Char} (nonempty : word ≠ []) (dark : ∀ c ∈ word, isSpace c = false) :
    split word = [word] := by
  have blank : Blank [' '] := by
    intro c m
    rw [List.mem_singleton.mp m]
    rfl
  rw [← split_append_blank word blank, split_word nonempty dark]
  rfl

/-! ## A stripped text -/

/-- What is stripped is white. -/
theorem strip_parts (text : List Char) :
    ∃ white, Blank white ∧ text = text.takeWhile isSpace ++ strip text ++ white := by
  let kept := text.dropWhile isSpace
  refine ⟨(kept.reverse.takeWhile isSpace).reverse, ?_, ?_⟩
  · intro c m
    exact blank_takeWhile _ c (List.mem_reverse.mp m)
  · have trailing : kept = strip text ++ (kept.reverse.takeWhile isSpace).reverse := by
      rw [strip, ← List.reverse_append, List.takeWhile_append_dropWhile, List.reverse_reverse]
    rw [List.append_assoc, ← trailing, List.takeWhile_append_dropWhile]

/-- Stripping keeps the words. -/
theorem split_strip (text : List Char) : split (strip text) = split text := by
  obtain ⟨white, blank, parts⟩ := strip_parts text
  have front : text.dropWhile isSpace = (strip text ++ white).dropWhile isSpace := by
    conv_lhs => rw [parts, List.append_assoc]
    exact List.dropWhile_append_of_pos (blank_takeWhile text)
  rw [← split_append_blank (strip text) blank, ← split_dropWhile, ← front, split_dropWhile]

/-- A stripped text ends in a character that is not white. -/
theorem getLast_strip {text : List Char} (some : strip text ≠ []) :
    isSpace ((strip text).getLast some) = false := by
  have := List.head_dropWhile_not isSpace (l := (text.dropWhile isSpace).reverse)
    (by simpa [strip] using some)
  simpa [strip] using this

/-- A text without a word is stripped to nothing. -/
theorem strip_nil {text : List Char} : strip text = [] ↔ split text = [] := by
  rw [← split_strip text, split_nil, dropWhile_blank]
  constructor
  · intro none c m
    rw [none] at m
    cases m
  · intro blank
    by_contra some
    exact absurd (blank _ (List.getLast_mem some)) (by simp [getLast_strip some])

theorem afterFirst_suffix (text : List Char) : afterFirst text <:+ text :=
  (List.dropWhile_suffix _).trans (List.dropWhile_suffix _)

/-! ## Texts without a line feed -/

theorem newline_append {s t : String} (hs : '\n' ∉ s.toList) (ht : '\n' ∉ t.toList) :
    '\n' ∉ (s ++ t).toList := by
  rw [String.toList_append, List.mem_append, not_or]
  exact ⟨hs, ht⟩

theorem newline_nat (n : Nat) : '\n' ∉ (toString n).toList := by
  rw [Nat.toString_eq_repr, Nat.toList_repr]
  intro m
  exact absurd (Nat.isDigit_of_mem_toDigits (by decide) (by decide) m) (by decide)

theorem newline_int (n : Int) : '\n' ∉ (toString n).toList := by
  rw [Int.toString_eq_repr, Int.repr_eq_if]
  split
  · exact newline_nat n.toNat
  · exact newline_append (by decide) (newline_nat (-n).toNat)

end Py
