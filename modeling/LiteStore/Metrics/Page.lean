import LiteStore.Lib.Histogram
import LiteStore.Metrics.Render

/-!
# Reading the metrics page

The three replacements of `_escape_label_value` write what the format prescribes
(`escapeLabelValue_toList`): the backslashes are doubled before the other two put new ones in. So every
label reads back as the value it was made of (`escaped_label_read`), and a page whose command names are
command names is read back sample by sample, whatever keys and prefixes are on it (`read_renderPrometheus`).
-/

namespace LiteStore
set_option autoImplicit false
open Py Exposition

/-! ## Escaping -/

/-- The replacements, in their order, are the escapes of the format. -/
theorem escapeLabelValue_toList (value : String) :
    (escapeLabelValue value).toList = escape value.toList := by
  rw [escapeLabelValue, String.toList_ofList]
  simp only [replaceChar, List.flatMap_assoc, escape]
  refine List.flatMap_congr fun c _ => ?_
  unfold escapeChar
  split_ifs with back quote feed
  · rfl
  · subst quote
    rfl
  · subst feed
    rfl
  · simp [quote, feed]

theorem escapeLabelValue_injective : Function.Injective escapeLabelValue := by
  intro value other same
  have texts := congrArg (fun text : String => unescape text.toList) same
  simp only [escapeLabelValue_toList, unescape_escape, Option.some.injEq] at texts
  exact String.toList_inj.mp texts

/-- A text in which nothing is escaped. -/
def Plain (text : String) : Prop := ∀ c ∈ text.toList, c ≠ '\\' ∧ c ≠ '"' ∧ c ≠ '\n'

theorem plain_ofList {text : List Char} (plain : (text.all fun c => c ≠ '\\' ∧ c ≠ '"' ∧ c ≠ '\n') = true) :
    Plain (String.ofList text) := by
  rw [Plain, String.toList_ofList]
  exact fun c m => of_decide_eq_true (List.all_eq_true.mp plain c m)

theorem escape_plain {text : String} (plain : Plain text) : escape text.toList = text.toList := by
  have single : ∀ c ∈ text.toList, escapeChar c = [c] := fun c m => by
    obtain ⟨back, quote, feed⟩ := plain c m
    rw [escapeChar, if_neg back, if_neg quote, if_neg feed]
  rw [escape, List.flatMap_congr single, List.flatMap_singleton']

theorem value_plain (command : CommandName) : Plain command.value := by
  cases command <;> exact plain_ofList (by decide)

/-! ## Samples -/

/-- A line with one label. -/
theorem line_one_label {front name key shown value : String} (split : front = name ++ "\x7b" ++ key ++ "=\"")
    (written : shown.toList = escape value.toList) (text : String) :
    (front ++ shown ++ "\"\x7d " ++ text).toList = Sample.text ⟨name, [(key, value)], text⟩ := by
  have brace : "\x7b".toList = ['{'] := String.toList_ofList
  have quote : "=\"".toList = ['=', '"'] := String.toList_ofList
  have back : "\"\x7d ".toList = ['"', '}', ' '] := String.toList_ofList
  simp only [split, String.toList_append, written, brace, quote, back]
  simp [Sample.text, labelsText, labelText, moreLabelsText]

/-- A line with two labels. -/
theorem line_two_labels {front middle name key key' shown shown' value value' : String}
    (split : front = name ++ "\x7b" ++ key ++ "=\"") (comma : middle = "\"," ++ key' ++ "=\"")
    (written : shown.toList = escape value.toList) (written' : shown'.toList = escape value'.toList)
    (text : String) :
    (front ++ shown ++ middle ++ shown' ++ "\"\x7d " ++ text).toList =
      Sample.text ⟨name, [(key, value), (key', value')], text⟩ := by
  have brace : "\x7b".toList = ['{'] := String.toList_ofList
  have quote : "=\"".toList = ['=', '"'] := String.toList_ofList
  have between : "\",".toList = ['"', ','] := String.toList_ofList
  have back : "\"\x7d ".toList = ['"', '}', ' '] := String.toList_ofList
  simp only [split, comma, String.toList_append, written, written', brace, quote, between, back]
  simp [Sample.text, labelsText, labelText, moreLabelsText]

namespace MetricsCollector

def requestsSample (commandName : String) (count : Nat) : Sample :=
  ⟨"litestore_command_requests_total", [("command", commandName)], toString count⟩

def bucketSample (commandName bound : String) (count : Nat) : Sample :=
  ⟨"litestore_command_latency_seconds_bucket", [("command", commandName), ("le", bound)], toString count⟩

def countSample (commandName : String) (count : Nat) : Sample :=
  ⟨"litestore_command_latency_seconds_count", [("command", commandName)], toString count⟩

def sumSample (commandName : String) (sum : Option Binary64.Number) : Sample :=
  ⟨"litestore_command_latency_seconds_sum", [("command", commandName)], strFloat sum⟩

def hotKeySample (entry : String × Nat) : Sample :=
  ⟨"litestore_hot_key_access_total", [("key", entry.1)], toString entry.2⟩

def memorySample (group : String) (size : Nat) : Sample :=
  ⟨"litestore_memory_by_prefix_bytes", [("prefix", group)], toString size⟩

section Lines

variable {commandName : String} (plain : Plain commandName)
include plain

theorem requestsLine_toList (count : Nat) :
    (requestsLine commandName count).toList = (requestsSample commandName count).text :=
  line_one_label (by decide +kernel) (escape_plain plain).symm _

theorem countLine_toList (count : Nat) :
    (countLine commandName count).toList = (countSample commandName count).text :=
  line_one_label (by decide +kernel) (escape_plain plain).symm _

theorem sumLine_toList (sum : Option Binary64.Number) :
    (sumLine commandName sum).toList = (sumSample commandName sum).text :=
  line_one_label (by decide +kernel) (escape_plain plain).symm _

theorem bucketLine_toList {bound : String} (flat : Plain bound) (count : Nat) :
    (bucketLine commandName bound count).toList = (bucketSample commandName bound count).text :=
  line_two_labels (by decide +kernel) (by decide +kernel) (escape_plain plain).symm (escape_plain flat).symm _

end Lines

theorem hotKeyLine_toList (entry : String × Nat) : (hotKeyLine entry).toList = (hotKeySample entry).text :=
  line_one_label (by decide +kernel) (escapeLabelValue_toList entry.1) _

theorem memoryLine_toList (group : String) (size : Nat) :
    (memoryLine group size).toList = (memorySample group size).text :=
  line_one_label (by decide +kernel) (escapeLabelValue_toList group) _

theorem not_mem_toString (count : Nat) : '\n' ∉ (toString count).toList := by
  rw [Nat.toString_eq_repr, Nat.toList_repr]
  exact not_mem_toDigits count

theorem wellFormed_one_label {name key text : String} (named : PlainName name) (labelled : PlainLabel key)
    (flat : '\n' ∉ text.toList) (value : String) : Sample.WellFormed ⟨name, [(key, value)], text⟩ :=
  ⟨named, fun _ m => by rw [List.mem_singleton.mp m]; exact labelled, flat⟩

theorem requestsSample_wellFormed (commandName : String) (count : Nat) :
    (requestsSample commandName count).WellFormed :=
  wellFormed_one_label (plainName_ofList (by decide) (by decide)) (plainLabel_ofList (by decide))
    (not_mem_toString count) commandName

theorem bucketSample_wellFormed (commandName bound : String) (count : Nat) :
    (bucketSample commandName bound count).WellFormed := by
  refine ⟨plainName_ofList (by decide) (by decide), fun label m => ?_, not_mem_toString count⟩
  rcases List.mem_pair.mp m with rfl | rfl
  · exact plainLabel_ofList (by decide)
  · exact plainLabel_ofList (by decide)

theorem countSample_wellFormed (commandName : String) (count : Nat) :
    (countSample commandName count).WellFormed :=
  wellFormed_one_label (plainName_ofList (by decide) (by decide)) (plainLabel_ofList (by decide))
    (not_mem_toString count) commandName

theorem sumSample_wellFormed (commandName : String) (sum : Option Binary64.Number) :
    (sumSample commandName sum).WellFormed :=
  wellFormed_one_label (plainName_ofList (by decide) (by decide)) (plainLabel_ofList (by decide))
    (not_mem_strFloat sum) commandName

theorem hotKeySample_wellFormed (entry : String × Nat) : (hotKeySample entry).WellFormed :=
  wellFormed_one_label (plainName_ofList (by decide) (by decide)) (plainLabel_ofList (by decide))
    (not_mem_toString entry.2) entry.1

theorem memorySample_wellFormed (group : String) (size : Nat) : (memorySample group size).WellFormed :=
  wellFormed_one_label (plainName_ofList (by decide) (by decide)) (plainLabel_ofList (by decide))
    (not_mem_toString size) group

/-- **Label escaping.** Whatever a key or a prefix holds: the escaped text has a value and it is the
text that was escaped, different texts are escaped differently, and in a line the label ends where it
should. -/
theorem escaped_label_read (value : String) :
    unescape (escapeLabelValue value).toList = some value.toList ∧
      (∀ other, escapeLabelValue other = escapeLabelValue value → other = value) ∧
      (∀ rest, readLabelValue ((escapeLabelValue value).toList ++ '"' :: rest) = some (value.toList, rest)) ∧
      ∀ count, readSample (hotKeyLine (value, count)).toList = some (hotKeySample (value, count)) ∧
        readSample (memoryLine value count).toList = some (memorySample value count) := by
  have read : unescape (escapeLabelValue value).toList = some value.toList := by
    rw [escapeLabelValue_toList]
    exact unescape_escape value.toList
  refine ⟨read, fun other same => escapeLabelValue_injective same, readLabelValue_of_unescape read,
    fun count => ⟨?_, ?_⟩⟩
  · rw [hotKeyLine_toList]
    exact readSample_text (hotKeySample_wellFormed _)
  · rw [memoryLine_toList]
    exact readSample_text (memorySample_wellFormed _ _)

/-! ## The page -/

variable (c : MetricsCollector)

/-- The samples of a command's histogram. -/
def latencySamples (commandName : String) : List Sample :=
  let bucketCounts := (c.latencyBucketCounts.get? commandName).getD .empty
  let totalCount := (c.latencyCountByCommand.get? commandName).getD 0
  let cumulated := Histogram.cumulate (fun bound => (bucketCounts.get? bound).getD 0) 0 latencyBuckets
  List.zipWith (fun bound count => bucketSample commandName (boundText bound) count) latencyBuckets cumulated ++
    [bucketSample commandName "+Inf" totalCount, countSample commandName totalCount,
      sumSample commandName ((c.latencySumByCommand.get? commandName).getD none)]

/-- The families of the page. -/
def families : List Family :=
  [⟨"litestore_commands_total", "Total number of executed commands.", "counter",
      [⟨"litestore_commands_total", [], toString c.throughputTotal⟩]⟩,
    ⟨"litestore_command_requests_total", "Total requests by command.", "counter",
      (sortedNames c.throughputByCommand.keys).map fun commandName =>
        requestsSample commandName ((c.throughputByCommand.get? commandName).getD 0)⟩,
    ⟨"litestore_command_latency_seconds", "Command latency by command.", "histogram",
      (sortedNames c.latencyCountByCommand.keys).flatMap c.latencySamples⟩,
    ⟨"litestore_hot_key_access_total", "Access count by key.", "gauge",
      c.hotKeyTracker.topK.map hotKeySample⟩,
    ⟨"litestore_memory_by_prefix_bytes", "Approximate memory used by key prefix.", "gauge",
      (sortedNames c.memoryByPrefixBytes.keys).map fun group =>
        memorySample group ((c.memoryByPrefixBytes.get? group).getD 0)⟩]

/-- Command names need no escapes, and a command that has a count has a sum. -/
structure Printable : Prop where
  requests : ∀ name ∈ c.throughputByCommand.keys, Plain name
  latencies : ∀ name ∈ c.latencyCountByCommand.keys, Plain name
  summed : ∀ name ∈ c.latencyCountByCommand.keys, ∃ sum, c.latencySumByCommand.get? name = some sum

variable {c}

theorem boundText_plain {bound : ℚ} (m : bound ∈ latencyBuckets) : Plain (boundText bound) := by
  have all : ∀ text ∈ latencyBuckets.map boundText, Plain text := by
    rw [boundTexts]
    simp only [List.forall_mem_cons]
    refine ⟨?_, ?_, ?_, ?_, ?_, ?_, ?_, ?_, nofun⟩ <;> exact plain_ofList (by decide)
  exact all _ (List.mem_map_of_mem m)

/-- The loop over the buckets writes the running sums. -/
theorem bucketLines_toList {commandName : String} (plain : Plain commandName) (bucketCounts : Dict ℚ Nat)
    (total : Nat) {bounds : List ℚ} (flat : ∀ bound ∈ bounds, Plain (boundText bound)) :
    (bucketLines commandName bucketCounts total bounds).map String.toList =
      (List.zipWith (fun bound count => bucketSample commandName (boundText bound) count) bounds
        (Histogram.cumulate (fun bound => (bucketCounts.get? bound).getD 0) total bounds)).map Sample.text := by
  induction bounds generalizing total with
  | nil => rfl
  | cons bound bounds ih =>
    have rest := ih (total + (bucketCounts.get? bound).getD 0) fun b m => flat b (List.mem_cons_of_mem _ m)
    rw [bucketLines, Histogram.cumulate, List.map_cons, List.zipWith_cons_cons, List.map_cons, rest,
      bucketLine_toList plain (flat bound List.mem_cons_self)]

theorem latencyLines_toList {commandName : String} (plain : Plain commandName)
    {sum : Option Binary64.Number} (summed : c.latencySumByCommand.get? commandName = some sum) :
    ∃ lines, c.latencyLines commandName = some lines ∧
      lines.map String.toList = (c.latencySamples commandName).map Sample.text := by
  have infinite : Plain "+Inf" := plain_ofList (by decide)
  refine ⟨_, by rw [latencyLines, summed]; rfl, ?_⟩
  rw [latencySamples, summed, List.map_append, List.map_append,
    bucketLines_toList plain _ 0 fun bound => boundText_plain]
  simp only [List.map_cons, List.map_nil, bucketLine_toList plain infinite, countLine_toList plain,
    sumLine_toList plain, Option.getD_some]

/-- The lines of all commands. -/
theorem mapM_latencyLines {names : List String} (plain : ∀ name ∈ names, Plain name)
    (summed : ∀ name ∈ names, ∃ sum, c.latencySumByCommand.get? name = some sum) :
    ∃ latency, names.mapM c.latencyLines = some latency ∧
      latency.flatten.map String.toList = (names.flatMap c.latencySamples).map Sample.text := by
  induction names with
  | nil => exact ⟨[], rfl, rfl⟩
  | cons name names ih =>
    obtain ⟨sum, found⟩ := summed name List.mem_cons_self
    obtain ⟨lines, first, texts⟩ := latencyLines_toList (plain name List.mem_cons_self) found
    obtain ⟨latency, rest, texts'⟩ := ih (fun n m => plain n (List.mem_cons_of_mem _ m))
      fun n m => summed n (List.mem_cons_of_mem _ m)
    refine ⟨lines :: latency, ?_, ?_⟩
    · rw [List.mapM_cons, first, rest]
      rfl
    · rw [List.flatten_cons, List.map_append, texts, texts', List.flatMap_cons, List.map_append]

/-- Lines joined by line feeds, with one behind the last. -/
theorem intercalate_toList {lines : List String} (nonempty : lines ≠ []) :
    ("\n".intercalate lines ++ "\n").toList = lines.flatMap fun line => line.toList ++ ['\n'] := by
  have feed : "\n".toList = ['\n'] := by decide
  rw [String.toList_append, String.toList_intercalate, feed]
  induction lines with
  | nil => exact absurd rfl nonempty
  | cons line lines ih =>
    cases lines with
    | nil => simp
    | cons next lines =>
      rw [List.map_cons, List.map_cons, List.intercalate_cons_cons, List.flatMap_cons,
        ← ih (List.cons_ne_nil next lines), List.map_cons]
      simp

/-- A page is written line by line. -/
theorem page_written {lines : List String} {page : List Line} (nonempty : page ≠ [])
    (texts : lines.map String.toList = page.map Line.text) :
    ("\n".intercalate lines ++ "\n").toList = pageText page := by
  have written : lines ≠ [] := by
    rintro rfl
    exact nonempty (List.map_eq_nil_iff.mp texts.symm)
  have same := congrArg (List.flatMap fun line => line ++ ['\n']) texts
  rw [List.flatMap_map, List.flatMap_map] at same
  rw [intercalate_toList written]
  exact same

theorem totalLine_toList (total : Nat) : ("litestore_commands_total " ++ toString total).toList =
    Sample.text ⟨"litestore_commands_total", [], toString total⟩ := by
  have split : "litestore_commands_total " = "litestore_commands_total" ++ " " := by decide +kernel
  have blank : " ".toList = [' '] := String.toList_ofList
  simp only [split, String.toList_append, blank, Sample.text, labelsText, List.nil_append, List.append_assoc,
    List.cons_append]

/-- A family is written as its two comments and its samples. -/
theorem header_toList (f : Family) {lines : List String}
    (texts : lines.map String.toList = f.samples.map Sample.text) :
    (header f.name f.help f.kind ++ lines).map String.toList = f.lines.map Line.text := by
  have help : "# HELP ".toList = '#' :: " HELP ".toList := by decide
  have kind : "# TYPE ".toList = '#' :: " TYPE ".toList := by decide
  rw [Family.lines, List.map_append, texts, header]
  simp only [List.map_cons, List.map_nil, List.map_map, Line.text, String.toList_append, help, kind,
    List.cons_append, List.nil_append]
  rfl

/-- The text of the page. -/
theorem renderPrometheus_toList (h : c.Printable) :
    ∃ text, c.renderPrometheus = some text ∧ text.toList = pageText (c.families.flatMap Family.lines) := by
  have plain : ∀ name ∈ sortedNames c.latencyCountByCommand.keys, Plain name := fun name m =>
    h.latencies name ((List.mem_insertionSort _).mp m)
  have summed : ∀ name ∈ sortedNames c.latencyCountByCommand.keys,
      ∃ sum, c.latencySumByCommand.get? name = some sum := fun name m =>
    h.summed name ((List.mem_insertionSort _).mp m)
  obtain ⟨latency, rendered, texts⟩ := mapM_latencyLines plain summed
  have requests : ((sortedNames c.throughputByCommand.keys).map fun commandName => requestsLine commandName
      ((c.throughputByCommand.get? commandName).getD 0)).map String.toList =
      ((sortedNames c.throughputByCommand.keys).map fun commandName => requestsSample commandName
        ((c.throughputByCommand.get? commandName).getD 0)).map Sample.text := by
    rw [List.map_map, List.map_map]
    refine List.map_congr_left fun name m => requestsLine_toList (h.requests name ?_) _
    exact (List.mem_insertionSort _).mp m
  have hotKeys : (c.hotKeyTracker.topK.map hotKeyLine).map String.toList =
      (c.hotKeyTracker.topK.map hotKeySample).map Sample.text := by
    rw [List.map_map, List.map_map]
    exact List.map_congr_left fun entry _ => hotKeyLine_toList entry
  have memory : ((sortedNames c.memoryByPrefixBytes.keys).map fun group => memoryLine group
      ((c.memoryByPrefixBytes.get? group).getD 0)).map String.toList =
      ((sortedNames c.memoryByPrefixBytes.keys).map fun group => memorySample group
        ((c.memoryByPrefixBytes.get? group).getD 0)).map Sample.text := by
    rw [List.map_map, List.map_map]
    exact List.map_congr_left fun group _ => memoryLine_toList group _
  have total : ["litestore_commands_total " ++ toString c.throughputTotal].map String.toList =
      [Sample.mk "litestore_commands_total" [] (toString c.throughputTotal)].map Sample.text :=
    congrArg (fun line => [line]) (totalLine_toList c.throughputTotal)
  refine ⟨_, by rw [renderPrometheus, rendered]; rfl, page_written (List.cons_ne_nil _ _) ?_⟩
  simp only [families, List.flatMap_cons, List.flatMap_nil, List.append_nil, List.map_append]
  rw [← header_toList _ total, ← header_toList _ requests, ← header_toList _ texts, ← header_toList _ hotKeys,
    ← header_toList _ memory]
  simp only [List.map_append, List.append_assoc]

/-- What stands in a command's histogram. -/
theorem mem_latencySamples {commandName : String} {s : Sample} (m : s ∈ c.latencySamples commandName) :
    (∃ bound count, s = bucketSample commandName bound count) ∨ (∃ count, s = countSample commandName count) ∨
      ∃ sum, s = sumSample commandName sum := by
  rw [latencySamples] at m
  rcases List.mem_append.mp m with m | m
  · rw [← List.map_uncurry_zip_eq_zipWith] at m
    obtain ⟨pair, _, rfl⟩ := List.mem_map.mp m
    exact .inl ⟨_, _, rfl⟩
  · simp only [List.mem_cons, List.not_mem_nil, or_false] at m
    rcases m with rfl | rfl | rfl
    · exact .inl ⟨_, _, rfl⟩
    · exact .inr (.inl ⟨_, rfl⟩)
    · exact .inr (.inr ⟨_, rfl⟩)

theorem latencySamples_wellFormed (commandName : String) : ∀ s ∈ c.latencySamples commandName, s.WellFormed := by
  intro s m
  rcases mem_latencySamples m with ⟨bound, count, rfl⟩ | ⟨count, rfl⟩ | ⟨sum, rfl⟩
  · exact bucketSample_wellFormed _ _ _
  · exact countSample_wellFormed _ _
  · exact sumSample_wellFormed _ _

theorem family_wellFormed {name help kind : List Char} {samples : List Sample}
    (described : '\n' ∉ name ∧ '\n' ∉ help ∧ '\n' ∉ kind) (each : ∀ s ∈ samples, s.WellFormed) :
    Family.WellFormed ⟨String.ofList name, String.ofList help, String.ofList kind, samples⟩ := by
  refine ⟨?_, each⟩
  simp only [String.toList_ofList]
  exact described

/-- No key, prefix or count breaks a line. -/
theorem families_wellFormed : ∀ f ∈ c.families, f.WellFormed := by
  simp only [families, List.forall_mem_cons]
  refine ⟨family_wellFormed (by decide) ?_, family_wellFormed (by decide) ?_, family_wellFormed (by decide) ?_,
    family_wellFormed (by decide) ?_, family_wellFormed (by decide) ?_, List.forall_mem_nil _⟩
  · intro s m
    rw [List.mem_singleton.mp m]
    exact ⟨plainName_ofList (by decide) (by decide), List.forall_mem_nil _, not_mem_toString _⟩
  · intro s m
    obtain ⟨name, _, rfl⟩ := List.mem_map.mp m
    exact requestsSample_wellFormed _ _
  · intro s m
    obtain ⟨name, _, m⟩ := List.mem_flatMap.mp m
    exact latencySamples_wellFormed name s m
  · intro s m
    obtain ⟨entry, _, rfl⟩ := List.mem_map.mp m
    exact hotKeySample_wellFormed entry
  · intro s m
    obtain ⟨group, _, rfl⟩ := List.mem_map.mp m
    exact memorySample_wellFormed _ _

/-- **The page is read back**, whatever keys and prefixes are on it. -/
theorem read_renderPrometheus (h : c.Printable) :
    ∃ text, c.renderPrometheus = some text ∧
      readPage text.toList = some (c.families.flatMap Family.samples) := by
  obtain ⟨text, rendered, written⟩ := renderPrometheus_toList h
  exact ⟨text, rendered, by rw [written, readPage_families families_wellFormed]⟩

end MetricsCollector
end LiteStore
