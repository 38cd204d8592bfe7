import LiteStore.Lib.Span
import Mathlib.Data.List.Basic

/-!
# The text exposition format

A page of metrics is a text of lines. A line that starts with `#` is a comment, and any other gives a
sample: the metric's name, its labels between braces, each with its value between quotes, and a blank
in front of the sample's own value. In a label's value a backslash, a quote and a line feed are
written with a backslash in front; there are no other escapes, and the three stand for themselves
nowhere. The optional blanks and timestamps of the format are left out.

`readLabelValue_of_unescape` says that a text without bad escapes ends at its quote whatever
follows, and `readPage_text` that the samples of a page are read back.
-/

namespace Exposition
set_option autoImplicit false
open Span

/-! ## Label values -/

/-- A character of a label's value. -/
def escapeChar (c : Char) : List Char :=
  if c = '\\' then ['\\', '\\'] else if c = '"' then ['\\', '"'] else if c = '\n' then ['\\', 'n'] else [c]

/-- A label's value as it is written. -/
def escape (value : List Char) : List Char := value.flatMap escapeChar

/-- The character that an escape stands for. -/
def escaped? (c : Char) : Option Char :=
  if c = '\\' then some '\\' else if c = '"' then some '"' else if c = 'n' then some '\n' else none

/-- The value that a text between quotes stands for. There is none where a line feed, a quote, an escape
of another character or a backslash at the end is met. -/
def unescape : List Char → Option (List Char)
  | [] => some []
  | '\\' :: c :: rest => (escaped? c).bind fun d => (unescape rest).map (d :: ·)
  | c :: rest => if c = '\\' ∨ c = '"' ∨ c = '\n' then none else (unescape rest).map (c :: ·)

/-- The value of a label, read from behind its first quote, and what comes behind its last. -/
def readLabelValue : List Char → Option (List Char × List Char)
  | [] => none
  | '\\' :: c :: rest =>
    (escaped? c).bind fun d => (readLabelValue rest).map fun (value, rest) => (d :: value, rest)
  | c :: rest =>
    if c = '"' then some ([], rest)
    else if c = '\\' ∨ c = '\n' then none
    else (readLabelValue rest).map fun (value, rest) => (c :: value, rest)

theorem unescape_escapeChar (c : Char) (rest : List Char) :
    unescape (escapeChar c ++ rest) = (unescape rest).map (c :: ·) := by
  have escaped {c d : Char} (stands : escaped? d = some c) :
      unescape ('\\' :: d :: rest) = (unescape rest).map (c :: ·) := by
    rw [unescape, stands]
    rfl
  unfold escapeChar
  split_ifs with back quote feed
  · subst back
    exact escaped rfl
  · subst quote
    exact escaped rfl
  · subst feed
    exact escaped rfl
  · rw [List.singleton_append, unescape]
    · exact if_neg (by tauto)
    · exact fun _ _ same _ => back same

/-- **What is escaped is read back.** -/
theorem unescape_escape (value : List Char) : unescape (escape value) = some value := by
  induction value with
  | nil => rfl
  | cons c value ih =>
    rw [escape, List.flatMap_cons, unescape_escapeChar, ← escape, ih]
    rfl

/-- A text with a value ends at the first quote behind it. -/
theorem readLabelValue_of_unescape {text value : List Char} (read : unescape text = some value)
    (rest : List Char) : readLabelValue (text ++ '"' :: rest) = some (value, rest) := by
  fun_induction unescape text generalizing value with
  | case1 =>
    cases read
    rfl
  | case2 c text ih =>
    obtain ⟨d, stands, read⟩ := Option.bind_eq_some_iff.mp read
    obtain ⟨more, later, rfl⟩ := Option.map_eq_some_iff.mp read
    rw [List.cons_append, List.cons_append, readLabelValue, stands, Option.bind_some, ih later]
    rfl
  | case3 c text single special => cases read
  | case4 c text single plain ih =>
    obtain ⟨more, later, rfl⟩ := Option.map_eq_some_iff.mp read
    have back : c ≠ '\\' := fun same => plain (.inl same)
    rw [List.cons_append, readLabelValue]
    · rw [if_neg fun same => plain (.inr (.inl same)), if_neg (by tauto), ih later]
      rfl
    · exact fun _ _ same _ => back same

theorem not_mem_escape (value : List Char) : '\n' ∉ escape value := by
  intro m
  obtain ⟨c, _, m⟩ := List.mem_flatMap.mp m
  unfold escapeChar at m
  split_ifs at m with back quote feed
  · simp at m
  · simp at m
  · simp at m
  · exact feed (List.mem_singleton.mp m).symm

/-! ## Samples -/

/-- The value of a metric under the given labels. -/
structure Sample where
  name : String
  labels : List (String × String)
  value : String
deriving DecidableEq

/-- A name and a value between quotes. -/
def labelText (label : String × String) : List Char :=
  label.1.toList ++ '=' :: '"' :: (escape label.2.toList ++ ['"'])

/-- What follows the first of the labels. -/
def moreLabelsText : List (String × String) → List Char
  | [] => ['}']
  | label :: labels => ',' :: (labelText label ++ moreLabelsText labels)

/-- The labels between braces, which are left out where there are none. -/
def labelsText : List (String × String) → List Char
  | [] => []
  | label :: labels => '{' :: (labelText label ++ moreLabelsText labels)

/-- The line of a sample. -/
def Sample.text (s : Sample) : List Char := s.name.toList ++ (labelsText s.labels ++ ' ' :: s.value.toList)

/-- The first label and at most `n` others, read from behind the opening brace or the last comma, and what
comes behind the closing brace. -/
def readLabels : Nat → List Char → Option (List (String × String) × List Char)
  | 0, _ => none
  | n + 1, text =>
    match text.dropWhile fun c => c ≠ '=' with
    | '=' :: '"' :: rest =>
      (readLabelValue rest).bind fun (value, rest) =>
        let label := (String.ofList (text.takeWhile fun c => c ≠ '='), String.ofList value)
        match rest with
        | ',' :: rest => (readLabels n rest).map fun (labels, rest) => (label :: labels, rest)
        | '}' :: rest => some ([label], rest)
        | _ => none
    | _ => none

/-- A sample's line, read back. -/
def readSample (text : List Char) : Option Sample :=
  let name := String.ofList (text.takeWhile fun c => c ≠ '{' ∧ c ≠ ' ')
  match text.dropWhile fun c => c ≠ '{' ∧ c ≠ ' ' with
  | '{' :: rest =>
    (readLabels rest.length rest).bind fun (labels, rest) =>
      match rest with
      | ' ' :: value => some ⟨name, labels, String.ofList value⟩
      | _ => none
  | ' ' :: value => some ⟨name, [], String.ofList value⟩
  | _ => none

/-- The name of a metric, with none of the characters that have a meaning beside it. -/
def PlainName (name : String) : Prop :=
  name.toList ≠ [] ∧ ∀ c ∈ name.toList, c ≠ '{' ∧ c ≠ ' ' ∧ c ≠ '#' ∧ c ≠ '\n'

/-- The name of a label. -/
def PlainLabel (name : String) : Prop := ∀ c ∈ name.toList, c ≠ '=' ∧ c ≠ '\n'

theorem plainName_ofList {name : List Char} (nonempty : name ≠ [])
    (plain : (name.all fun c => c ≠ '{' ∧ c ≠ ' ' ∧ c ≠ '#' ∧ c ≠ '\n') = true) :
    PlainName (String.ofList name) := by
  rw [PlainName, String.toList_ofList]
  exact ⟨nonempty, fun c m => of_decide_eq_true (List.all_eq_true.mp plain c m)⟩

theorem plainLabel_ofList {name : List Char} (plain : (name.all fun c => c ≠ '=' ∧ c ≠ '\n') = true) :
    PlainLabel (String.ofList name) := by
  rw [PlainLabel, String.toList_ofList]
  exact fun c m => of_decide_eq_true (List.all_eq_true.mp plain c m)

/-- Names are plain and the value is one line; a label's value may be any text. -/
structure Sample.WellFormed (s : Sample) : Prop where
  name : PlainName s.name
  labels : ∀ label ∈ s.labels, PlainLabel label.1
  value : '\n' ∉ s.value.toList

/-- One label is read up to what ends it. -/
theorem readLabels_labelText {label : String × String} (plain : ∀ c ∈ label.1.toList, c ≠ '=') (n : Nat)
    (rest : List Char) :
    readLabels (n + 1) (labelText label ++ rest) =
      match rest with
      | ',' :: rest => (readLabels n rest).map fun (labels, rest) => (label :: labels, rest)
      | '}' :: rest => some ([label], rest)
      | _ => none := by
  have text : labelText label ++ rest =
      label.1.toList ++ '=' :: '"' :: (escape label.2.toList ++ '"' :: rest) := by
    simp [labelText]
  have unequal : ∀ c ∈ label.1.toList, decide (c ≠ '=') = true := fun c m => decide_eq_true (plain c m)
  have read := readLabelValue_of_unescape (unescape_escape label.2.toList) rest
  rw [text, readLabels, takeWhile_stop unequal rfl, dropWhile_stop unequal rfl]
  simp only [read, Option.bind_some, String.ofList_toList]

theorem readLabels_text {label : String × String} {labels : List (String × String)}
    (plain : ∀ l ∈ label :: labels, ∀ c ∈ l.1.toList, c ≠ '=') {n : Nat} (enough : labels.length < n)
    (rest : List Char) :
    readLabels n (labelText label ++ (moreLabelsText labels ++ rest)) = some (label :: labels, rest) := by
  obtain ⟨n, rfl⟩ := Nat.exists_eq_add_one_of_ne_zero (Nat.ne_zero_of_lt enough)
  rw [readLabels_labelText (plain label List.mem_cons_self)]
  induction labels generalizing label n with
  | nil => rfl
  | cons next labels ih =>
    obtain ⟨n, rfl⟩ := Nat.exists_eq_add_one_of_ne_zero (Nat.ne_zero_of_lt (Nat.lt_of_succ_lt_succ enough))
    have later : ∀ l ∈ next :: labels, ∀ c ∈ l.1.toList, c ≠ '=' := fun l m =>
      plain l (List.mem_cons_of_mem label m)
    have read := ih later n (Nat.lt_of_succ_lt_succ enough)
    simp only [moreLabelsText, List.cons_append, List.append_assoc]
    rw [readLabels_labelText (later next List.mem_cons_self), read]
    rfl

theorem length_lt_labelsText (label : String × String) (labels : List (String × String)) (rest : List Char) :
    labels.length < (labelText label ++ (moreLabelsText labels ++ rest)).length := by
  have more : labels.length ≤ (moreLabelsText labels).length := by
    induction labels with
    | nil => exact Nat.zero_le _
    | cons label labels ih =>
      simp only [moreLabelsText, List.length_cons, List.length_append]
      omega
  simp only [labelText, List.length_append, List.length_cons]
  omega

/-- **A sample is read back from its line.** -/
theorem readSample_text {s : Sample} (h : s.WellFormed) : readSample s.text = some s := by
  obtain ⟨name, labels, value⟩ := s
  have plain : ∀ c ∈ name.toList, decide (c ≠ '{' ∧ c ≠ ' ') = true := fun c m =>
    decide_eq_true ⟨(h.name.2 c m).1, (h.name.2 c m).2.1⟩
  cases labels with
  | nil =>
    simp only [Sample.text, labelsText, List.nil_append]
    rw [readSample, takeWhile_stop plain rfl, dropWhile_stop plain rfl]
    simp only [String.ofList_toList]
  | cons label labels =>
    have text : Sample.text ⟨name, label :: labels, value⟩ =
        name.toList ++ '{' :: (labelText label ++ (moreLabelsText labels ++ ' ' :: value.toList)) := by
      simp [Sample.text, labelsText]
    have read := readLabels_text (fun l m c in_name => (h.labels l m c in_name).1)
      (length_lt_labelsText label labels (' ' :: value.toList)) (' ' :: value.toList)
    rw [text, readSample, takeWhile_stop plain rfl, dropWhile_stop plain rfl]
    simp only [read, Option.bind_some, String.ofList_toList]

/-! ## Pages -/

/-- A line of a page. -/
inductive Line where
  | comment (text : String)
  | sample (s : Sample)
deriving DecidableEq

namespace Line

def text : Line → List Char
  | comment text => '#' :: text.toList
  | sample s => s.text

def sample? : Line → Option Sample
  | comment _ => none
  | sample s => some s

def WellFormed : Line → Prop
  | comment text => '\n' ∉ text.toList
  | sample s => s.WellFormed

end Line

/-- The text of a page, a line feed behind every line. -/
def pageText (lines : List Line) : List Char := lines.flatMap fun line => line.text ++ ['\n']

/-- The samples of a page; empty lines and comments are passed over. -/
def readPage (text : List Char) : Option (List Sample) :=
  ((text.splitOn '\n').filter fun line => line ≠ [] ∧ line.head? ≠ some '#').mapM readSample

theorem not_mem_labelText {label : String × String} (plain : ∀ c ∈ label.1.toList, c ≠ '\n') :
    '\n' ∉ labelText label := by
  have value := not_mem_escape label.2.toList
  have name : '\n' ∉ label.1.toList := fun m => plain _ m rfl
  simp [labelText, name, value]

/-- A well-formed line is one line. -/
theorem Line.not_mem_text {line : Line} (h : line.WellFormed) : '\n' ∉ line.text := by
  cases line with
  | comment text =>
    have free : '\n' ∉ text.toList := h
    simp [Line.text, free]
  | sample s =>
    have name : '\n' ∉ s.name.toList := fun m => (h.name.2 _ m).2.2.2 rfl
    have value : '\n' ∉ s.value.toList := h.value
    have labels : '\n' ∉ labelsText s.labels := by
      have more {labels : List (String × String)} (plain : ∀ l ∈ labels, ∀ c ∈ l.1.toList, c ≠ '\n') :
          '\n' ∉ moreLabelsText labels := by
        induction labels with
        | nil => decide
        | cons label labels ih =>
          have first := not_mem_labelText (plain label List.mem_cons_self)
          have rest := ih fun l m => plain l (List.mem_cons_of_mem label m)
          simp [moreLabelsText, first, rest]
      cases given : s.labels with
      | nil => exact List.not_mem_nil
      | cons label labels =>
        have plain : ∀ l ∈ label :: labels, ∀ c ∈ l.1.toList, c ≠ '\n' := fun l m c in_name =>
          (h.labels l (given ▸ m) c in_name).2
        have first := not_mem_labelText (plain label List.mem_cons_self)
        have rest := more fun l m => plain l (List.mem_cons_of_mem label m)
        simp [labelsText, first, rest]
    simp [Line.text, Sample.text, name, labels, value]

/-- A sample's line is neither empty nor a comment. -/
theorem Sample.head?_text {s : Sample} (h : s.WellFormed) : s.text ≠ [] ∧ s.text.head? ≠ some '#' := by
  cases name : s.name.toList with
  | nil => exact absurd name h.name.1
  | cons c rest =>
    have first : c ≠ '#' := (h.name.2 c (by rw [name]; exact List.mem_cons_self)).2.2.1
    simp [Sample.text, name, first]

/-- **The samples of a page are read back.** -/
theorem readPage_text {lines : List Line} (h : ∀ line ∈ lines, line.WellFormed) :
    readPage (pageText lines) = some (lines.filterMap Line.sample?) := by
  induction lines with
  | nil => rfl
  | cons line lines ih =>
    have first := h line List.mem_cons_self
    have rest := ih fun line m => h line (List.mem_cons_of_mem _ m)
    have split : (pageText (line :: lines)).splitOn '\n' = line.text :: (pageText lines).splitOn '\n' := by
      rw [pageText, List.flatMap_cons, List.append_assoc, List.singleton_append]
      exact List.splitOn_append_cons_self_of_not_mem (Line.not_mem_text first) _
    unfold readPage at rest ⊢
    rw [split]
    cases line with
    | comment text =>
      rw [List.filter_cons_of_neg (by simp [Line.text])]
      exact rest
    | sample s =>
      have shown := Sample.head?_text first
      have kept : decide (s.text ≠ [] ∧ s.text.head? ≠ some '#') = true := decide_eq_true shown
      simp only [Line.text, List.filter_cons, kept, if_true, List.mapM_cons]
      rw [readSample_text first, rest]
      rfl

/-- The samples of a metric, in their order. -/
def samplesNamed (metric : String) (samples : List Sample) : List Sample :=
  samples.filter fun s => s.name = metric

theorem samplesNamed_append (metric : String) (samples more : List Sample) :
    samplesNamed metric (samples ++ more) = samplesNamed metric samples ++ samplesNamed metric more :=
  List.filter_append _ _

theorem samplesNamed_flatMap {α : Type} (metric : String) (l : List α) (f : α → List Sample) :
    samplesNamed metric (l.flatMap f) = l.flatMap fun a => samplesNamed metric (f a) :=
  List.filter_flatMap

theorem samplesNamed_map {α : Type} {f : α → Sample} {m : String} (named : ∀ a, (f a).name = m)
    (l : List α) (metric : String) :
    samplesNamed metric (l.map f) = if m = metric then l.map f else [] := by
  by_cases same : m = metric <;> simp [samplesNamed, List.filter_map, Function.comp_def, named, same]

theorem mem_samplesNamed {metric : String} {samples : List Sample} {s : Sample} :
    s ∈ samplesNamed metric samples ↔ s ∈ samples ∧ s.name = metric := by
  rw [samplesNamed, List.mem_filter, decide_eq_true_eq]

/-! ## Families -/

/-- A metric with its description and its samples. -/
structure Family where
  name : String
  help : String
  kind : String
  samples : List Sample

namespace Family

/-- Two comments describe the metric. -/
def lines (f : Family) : List Line :=
  .comment (" HELP " ++ f.name ++ " " ++ f.help) :: .comment (" TYPE " ++ f.name ++ " " ++ f.kind) ::
    f.samples.map .sample

structure WellFormed (f : Family) : Prop where
  described : '\n' ∉ f.name.toList ∧ '\n' ∉ f.help.toList ∧ '\n' ∉ f.kind.toList
  samples : ∀ s ∈ f.samples, s.WellFormed

theorem lines_wellFormed {f : Family} (h : f.WellFormed) : ∀ line ∈ f.lines, line.WellFormed := by
  obtain ⟨name, help, kind⟩ := h.described
  have blank : '\n' ∉ " ".toList := by decide
  have words : '\n' ∉ " HELP ".toList ∧ '\n' ∉ " TYPE ".toList := by decide
  intro line m
  rcases List.mem_cons.mp m with rfl | m
  · simp only [Line.WellFormed, String.toList_append, List.mem_append, not_or]
    exact ⟨⟨⟨words.1, name⟩, blank⟩, help⟩
  rcases List.mem_cons.mp m with rfl | m
  · simp only [Line.WellFormed, String.toList_append, List.mem_append, not_or]
    exact ⟨⟨⟨words.2, name⟩, blank⟩, kind⟩
  · obtain ⟨s, listed, rfl⟩ := List.mem_map.mp m
    exact h.samples s listed

theorem filterMap_lines (f : Family) : f.lines.filterMap Line.sample? = f.samples := by
  rw [lines, List.filterMap_cons_none rfl, List.filterMap_cons_none rfl, List.filterMap_map]
  exact List.filterMap_some

end Family

/-- The samples of a page of families are read back. -/
theorem readPage_families {families : List Family} (h : ∀ f ∈ families, f.WellFormed) :
    readPage (pageText (families.flatMap Family.lines)) = some (families.flatMap Family.samples) := by
  have lines : ∀ line ∈ families.flatMap Family.lines, line.WellFormed := fun line m => by
    obtain ⟨f, listed, m⟩ := List.mem_flatMap.mp m
    exact Family.lines_wellFormed (h f listed) line m
  rw [readPage_text lines, List.filterMap_flatMap]
  exact congrArg some (List.flatMap_congr fun f _ => f.filterMap_lines)

end Exposition
