import LiteStore.Metrics.Page
import Mathlib.Algebra.BigOperators.Group.List.Lemmas

/-!
# The rendered histogram

Five counters are kept side by side, and a duration is counted in one bucket, the first that is not below
it. `Tallies` says what each of them counts after any observed commands (`Tallies.observeAll`).
Rendering sums the buckets up, so what is read on the page is how many observations of a command took
no longer than a bound (`rendered_histogram`).
-/

namespace LiteStore
set_option autoImplicit false
open Py Exposition

/-! ## Counters -/

section Counts

variable {κ : Type} [DecidableEq κ] {counter : Dict κ Nat} {items : List κ}

/-- The counter has counted the items. -/
def Counts (counter : Dict κ Nat) (items : List κ) : Prop :=
  ∀ k, counter.get? k =
    if (items.countP fun item => item = k) = 0 then none else some (items.countP fun item => item = k)

theorem Counts.empty : Counts (Dict.empty : Dict κ Nat) [] := fun _ => rfl

/-- What `counter[key]` answers. -/
theorem Counts.getD (h : Counts counter items) (k : κ) :
    (counter.get? k).getD 0 = items.countP fun item => item = k := by
  rw [h k]
  split
  · rename_i none
    exact none.symm
  · rfl

theorem Counts.countOne (h : Counts counter items) (key : κ) : Counts (countOne counter key) (items ++ [key]) := by
  intro k
  rw [LiteStore.countOne, Dict.get?_set, h.getD key, List.countP_append, List.countP_singleton]
  by_cases same : k = key
  · subst same
    simp
  · simp only [if_neg same, decide_eq_true_eq, Ne.symm same, if_false, Nat.add_zero]
    exact h k

/-- The keys are the items. -/
theorem Counts.mem_keys (h : Counts counter items) (k : κ) : k ∈ counter.keys ↔ k ∈ items := by
  rw [Dict.mem_keys_isSome, h k]
  split
  · rename_i none
    have absent := List.countP_eq_zero.mp none
    simp only [Option.isSome_none, Bool.false_eq_true, false_iff]
    exact fun m => absurd (decide_eq_true rfl) (absent k m)
  · rename_i some
    simp only [Option.isSome_some, true_iff]
    by_contra absent
    apply some
    rw [List.countP_eq_zero]
    intro item m same
    exact absent (of_decide_eq_true same ▸ m)

end Counts

/-- The counts of all keys add up to the number of items. -/
theorem Counts.sum {counter : Dict String Nat} {items : List String} (h : Counts counter items) :
    ((sortedNames counter.keys).map fun name => (counter.get? name).getD 0).sum = items.length := by
  have perm : (sortedNames counter.keys).Perm items.dedup := by
    apply (List.perm_insertionSort _ _).trans
    apply (List.perm_ext_iff_of_nodup counter.keys_nodup (List.nodup_dedup items)).mpr
    intro name
    rw [h.mem_keys, List.mem_dedup]
  have counts : (fun name => (counter.get? name).getD 0) = fun name => items.count name := by
    funext name
    rw [h.getD, List.count_eq_countP]
    exact List.countP_congr fun item _ => by simp
  rw [counts, (perm.map _).sum_eq]
  exact List.sum_map_count_dedup_eq_length items

/-! ## What the collector counts -/

/-- The name a request is counted under. -/
def Observation.commandName (o : Observation) : String := o.request.command.value

/-- The durations of the requests of a command, in their order. -/
def durations (observed : List Observation) (command : CommandName) : List ℚ :=
  (observed.filter fun o => o.request.command = command).map Observation.durationSeconds

/-- How many requests of a command took no longer than a bound. -/
def numberUpTo (observed : List Observation) (command : CommandName) (bound : ℚ) : Nat :=
  (durations observed command).countP fun duration => duration ≤ bound

theorem CommandName.value_injective : Function.Injective CommandName.value := by
  intro command other same
  have known := congrArg CommandName.ofValue? same
  rw [CommandName.ofValue?_value, CommandName.ofValue?_value] at known
  exact Option.some_inj.mp known

theorem durations_append (observed : List Observation) (o : Observation) (command : CommandName) :
    durations (observed ++ [o]) command =
      durations observed command ++ if o.request.command = command then [o.durationSeconds] else [] := by
  rw [durations, List.filter_append, List.map_append, List.filter_singleton]
  by_cases same : o.request.command = command
  · rw [decide_eq_true same, if_pos same]
    rfl
  · rw [decide_eq_false same, if_neg same]
    rfl

/-- A command has as many durations as its name was counted. -/
theorem countP_commandName (observed : List Observation) (command : CommandName) :
    ((observed.map Observation.commandName).countP fun name => name = command.value) =
      (durations observed command).length := by
  rw [durations, List.length_map, List.countP_map, ← List.countP_eq_length_filter]
  refine List.countP_congr fun o _ => ?_
  rw [Function.comp_apply, decide_eq_true_eq, decide_eq_true_eq]
  exact CommandName.value_injective.eq_iff

namespace MetricsCollector

/-- The buckets of a command. -/
def bucketCounts (c : MetricsCollector) (command : CommandName) : Dict ℚ Nat :=
  (c.latencyBucketCounts.get? command.value).getD .empty

/-- The counters have counted the observed requests. -/
structure Tallies (observed : List Observation) (c : MetricsCollector) : Prop where
  total : c.throughputTotal = observed.length
  requests : Counts c.throughputByCommand (observed.map Observation.commandName)
  latencies : Counts c.latencyCountByCommand (observed.map Observation.commandName)
  summed : ∀ name ∈ observed.map Observation.commandName, ∃ sum, c.latencySumByCommand.get? name = some sum
  buckets : ∀ command, Counts (c.bucketCounts command)
    ((durations observed command).filterMap (Histogram.bucket? latencyBuckets))

/-- The collector after `observe_command`, but for the tracker. -/
def tallied (c : MetricsCollector) (o : Observation) : MetricsCollector :=
  { c with
    throughputTotal := c.throughputTotal + 1
    throughputByCommand := countOne c.throughputByCommand o.commandName
    latencySumByCommand := c.latencySumByCommand.set o.commandName
      (((c.latencySumByCommand.get? o.commandName).getD (some 0)).bind fun sum =>
        sum.add (.round o.durationSeconds))
    latencyCountByCommand := countOne c.latencyCountByCommand o.commandName }.observeLatencyBucket
      o.commandName o.durationSeconds

variable {hash : Nat → String → Nat} {c c' : MetricsCollector} {observed : List Observation}

theorem observeCommand_tallied {o : Observation} (done : c.observeCommand hash o = some c') :
    ∃ tracker, c' = { c.tallied o with hotKeyTracker := tracker } := by
  unfold observeCommand at done
  dsimp only at done
  split at done
  · cases done
    exact ⟨_, rfl⟩
  · obtain ⟨tracker, _, rfl⟩ := Option.map_eq_some_iff.mp done
    exact ⟨tracker, rfl⟩

theorem init_tallies : Tallies [] init where
  total := rfl
  requests := .empty
  latencies := .empty
  summed := nofun
  buckets _ := .empty

/-- A duration goes to its bucket, and to none if it is above the bounds. -/
theorem bucketCounts_tallied (c : MetricsCollector) (o : Observation) (command : CommandName) :
    (c.tallied o).bucketCounts command =
      if o.request.command = command then
        match Histogram.bucket? latencyBuckets o.durationSeconds with
        | some bucket => countOne (c.bucketCounts command) bucket
        | none => c.bucketCounts command
      else c.bucketCounts command := by
  simp only [bucketCounts, tallied, observeLatencyBucket, Observation.commandName, Dict.get?_set]
  by_cases same : o.request.command = command
  · subst same
    rw [if_pos rfl, if_pos rfl]
    rfl
  · rw [if_neg fun named => same (CommandName.value_injective named).symm, if_neg same]

theorem Tallies.tallied (h : Tallies observed c) (o : Observation) :
    Tallies (observed ++ [o]) (c.tallied o) where
  total := by
    rw [List.length_append, List.length_singleton, ← h.total]
    rfl
  requests := by
    rw [List.map_append]
    exact h.requests.countOne o.commandName
  latencies := by
    rw [List.map_append]
    exact h.latencies.countOne o.commandName
  summed := by
    intro name m
    simp only [MetricsCollector.tallied, observeLatencyBucket, Dict.get?_set]
    by_cases same : name = o.commandName
    · exact ⟨_, if_pos same⟩
    · rw [if_neg same]
      refine h.summed name ?_
      rw [List.map_append, List.map_singleton] at m
      exact (List.mem_append.mp m).resolve_right fun last => same (List.mem_singleton.mp last)
  buckets command := by
    rw [bucketCounts_tallied, durations_append, List.filterMap_append]
    by_cases same : o.request.command = command
    · rw [if_pos same, if_pos same]
      cases found : Histogram.bucket? latencyBuckets o.durationSeconds with
      | some bucket =>
        rw [List.filterMap_cons_some found, List.filterMap_nil]
        exact (h.buckets command).countOne bucket
      | none =>
        rw [List.filterMap_cons_none found, List.filterMap_nil, List.append_nil]
        exact h.buckets command
    · rw [if_neg same, if_neg same, List.filterMap_nil, List.append_nil]
      exact h.buckets command

/-- The tracker and the memory sizes are not among the counters. -/
theorem Tallies.beside (h : Tallies observed c) (tracker : TopKTracker) (memory : Dict String Nat) :
    Tallies observed { c with hotKeyTracker := tracker, memoryByPrefixBytes := memory } :=
  ⟨h.total, h.requests, h.latencies, h.summed, h.buckets⟩

/-- Observing requests adds them to the tallies. -/
theorem Tallies.observeAll {more : List Observation} (h : Tallies observed c)
    (done : c.observeAll hash more = some c') : Tallies (observed ++ more) c' := by
  induction more generalizing c observed with
  | nil =>
    cases done
    rw [List.append_nil]
    exact h
  | cons o more ih =>
    obtain ⟨c₁, first, rest⟩ := Option.bind_eq_some_iff.mp done
    obtain ⟨tracker, rfl⟩ := observeCommand_tallied first
    have next := ih ((h.tallied o).beside tracker _) rest
    rwa [List.append_assoc] at next

/-! ## What the page says -/

theorem plain_commandName {name : String} (m : name ∈ observed.map Observation.commandName) : Plain name := by
  obtain ⟨o, _, rfl⟩ := List.mem_map.mp m
  exact value_plain o.request.command

theorem Tallies.printable (h : Tallies observed c) : c.Printable where
  requests name m := plain_commandName ((h.requests.mem_keys name).mp m)
  latencies name m := plain_commandName ((h.latencies.mem_keys name).mp m)
  summed name m := h.summed name ((h.latencies.mem_keys name).mp m)

theorem latencyBuckets_rising : latencyBuckets.Pairwise (· < ·) := by decide +kernel

/-- The buckets of a command, as the page should have them. -/
def histogramSamples (observed : List Observation) (command : CommandName) : List Sample :=
  (latencyBuckets.map fun bound =>
    bucketSample command.value (boundText bound) (numberUpTo observed command bound)) ++
    [bucketSample command.value "+Inf" (durations observed command).length]

/-- The running sums are the numbers of durations up to each bound. -/
theorem Tallies.latencySamples (h : Tallies observed c) (command : CommandName) :
    c.latencySamples command.value = histogramSamples observed command ++
      [countSample command.value (durations observed command).length,
        sumSample command.value ((c.latencySumByCommand.get? command.value).getD none)] := by
  have counts : (fun bound => ((c.bucketCounts command).get? bound).getD 0) = fun bound =>
      (durations observed command).countP fun duration =>
        Histogram.bucket? latencyBuckets duration = some bound := by
    funext bound
    rw [(h.buckets command).getD bound, List.countP_filterMap]
    refine List.countP_congr fun duration _ => ?_
    cases Histogram.bucket? latencyBuckets duration <;> simp
  have total : (c.latencyCountByCommand.get? command.value).getD 0 = (durations observed command).length := by
    rw [h.latencies.getD, countP_commandName]
  have sums := Histogram.cumulate_bucket (durations observed command) latencyBuckets_rising
  rw [← counts] at sums
  unfold MetricsCollector.latencySamples
  dsimp only
  rw [total, ← bucketCounts, sums, List.zipWith_map_right, List.zipWith_self, histogramSamples,
    List.append_assoc]
  rfl

/-- The samples of a metric about a command. -/
def samplesOf (metric : String) (command : CommandName) (samples : List Sample) : List Sample :=
  (samplesNamed metric samples).filter fun s => ("command", command.value) ∈ s.labels

/-- The samples of one of the page's metrics. -/
theorem samplesNamed_families (c : MetricsCollector) (metric : String) :
    samplesNamed metric (c.families.flatMap Family.samples) =
      (if "litestore_commands_total" = metric then
        [⟨"litestore_commands_total", [], toString c.throughputTotal⟩] else []) ++
      ((if "litestore_command_requests_total" = metric then
        (sortedNames c.throughputByCommand.keys).map fun commandName =>
          requestsSample commandName ((c.throughputByCommand.get? commandName).getD 0) else []) ++
      (((sortedNames c.latencyCountByCommand.keys).flatMap fun commandName =>
        samplesNamed metric (c.latencySamples commandName)) ++
      ((if "litestore_hot_key_access_total" = metric then c.hotKeyTracker.topK.map hotKeySample else []) ++
      if "litestore_memory_by_prefix_bytes" = metric then
        (sortedNames c.memoryByPrefixBytes.keys).map fun group =>
          memorySample group ((c.memoryByPrefixBytes.get? group).getD 0) else []))) := by
  have total := samplesNamed_map (m := "litestore_commands_total") (f := fun total : Nat =>
    ⟨"litestore_commands_total", [], toString total⟩) (fun _ => rfl) [c.throughputTotal] metric
  have requests := samplesNamed_map (m := "litestore_command_requests_total") (f := fun commandName =>
    requestsSample commandName ((c.throughputByCommand.get? commandName).getD 0)) (fun _ => rfl)
    (sortedNames c.throughputByCommand.keys) metric
  have hotKeys := samplesNamed_map (m := "litestore_hot_key_access_total") (f := hotKeySample)
    (fun _ => rfl) c.hotKeyTracker.topK metric
  have memory := samplesNamed_map (m := "litestore_memory_by_prefix_bytes") (f := fun group =>
    memorySample group ((c.memoryByPrefixBytes.get? group).getD 0)) (fun _ => rfl)
    (sortedNames c.memoryByPrefixBytes.keys) metric
  rw [List.map_singleton] at total
  simp only [families, List.flatMap_cons, List.flatMap_nil, List.append_nil, samplesNamed_append,
    samplesNamed_flatMap, total, requests, hotKeys, memory]

/-- A histogram is about its command only. -/
theorem label_latencySamples {commandName : String} {s : Sample} (m : s ∈ c.latencySamples commandName)
    (other : String) : ("command", other) ∈ s.labels ↔ other = commandName := by
  rcases mem_latencySamples m with ⟨bound, count, rfl⟩ | ⟨count, rfl⟩ | ⟨sum, rfl⟩
  · simp [bucketSample]
  · simp [countSample]
  · simp [sumSample]

/-- No other metric is in a histogram. -/
theorem histograms_none (c : MetricsCollector) {metric : String}
    (other : metric ∉ ["litestore_command_latency_seconds_bucket", "litestore_command_latency_seconds_count",
      "litestore_command_latency_seconds_sum"]) (names : List String) :
    (names.flatMap fun name => samplesNamed metric (c.latencySamples name)) = [] := by
  simp only [List.mem_cons, List.not_mem_nil, or_false, not_or] at other
  obtain ⟨bucket, count, sum⟩ := other
  rw [List.flatMap_eq_nil_iff]
  intro name _
  apply List.eq_nil_iff_forall_not_mem.mpr
  intro s m
  obtain ⟨m, named⟩ := mem_samplesNamed.mp m
  rcases mem_latencySamples m with ⟨bound, n, rfl⟩ | ⟨n, rfl⟩ | ⟨n, rfl⟩
  · exact bucket named.symm
  · exact count named.symm
  · exact sum named.symm

/-- Among the histograms of distinct commands, the samples about one of them are in its own. -/
theorem samplesOf_histograms (c : MetricsCollector) (metric : String) (command : CommandName)
    {names : List String} (distinct : names.Nodup) (listed : command.value ∈ names) :
    (names.flatMap fun name => samplesNamed metric (c.latencySamples name)).filter
        (fun s => ("command", command.value) ∈ s.labels) =
      samplesNamed metric (c.latencySamples command.value) := by
  obtain ⟨front, back, rfl⟩ := List.append_of_mem listed
  have elsewhere {others : List String} (absent : command.value ∉ others) :
      (others.flatMap fun name => samplesNamed metric (c.latencySamples name)).filter
        (fun s => ("command", command.value) ∈ s.labels) = [] := by
    rw [List.filter_eq_nil_iff]
    intro s m labelled
    obtain ⟨name, among, m⟩ := List.mem_flatMap.mp m
    have same := (label_latencySamples (mem_samplesNamed.mp m).1 _).mp (of_decide_eq_true labelled)
    exact absent (same ▸ among)
  have here : (samplesNamed metric (c.latencySamples command.value)).filter
      (fun s => ("command", command.value) ∈ s.labels) = samplesNamed metric (c.latencySamples command.value) :=
    List.filter_eq_self.mpr fun s m =>
      decide_eq_true ((label_latencySamples (mem_samplesNamed.mp m).1 _).mpr rfl)
  obtain ⟨_, behind, apart⟩ := List.nodup_append.mp distinct
  rw [List.flatMap_append, List.flatMap_cons, List.filter_append, List.filter_append, here,
    elsewhere fun m => apart _ m _ List.mem_cons_self rfl, elsewhere (List.nodup_cons.mp behind).1,
    List.nil_append, List.append_nil]

/-- What is read on a page about the observed requests. The histogram of each of their commands has, bound
by bound, the number of its requests that took no longer, and these numbers rise; the last bucket and the
count are the number of its requests. The requests of all commands add up to the total. -/
structure CumulativeHistogram (observed : List Observation) (samples : List Sample) : Prop where
  buckets : ∀ o ∈ observed,
    samplesOf "litestore_command_latency_seconds_bucket" o.request.command samples =
      histogramSamples observed o.request.command
  rising : ∀ command,
    (latencyBuckets.map (numberUpTo observed command) ++ [(durations observed command).length]).Pairwise (· ≤ ·)
  counted : ∀ o ∈ observed,
    samplesOf "litestore_command_latency_seconds_count" o.request.command samples =
      [countSample o.commandName (durations observed o.request.command).length]
  totals : ∃ totals : List (String × Nat),
    samplesNamed "litestore_command_requests_total" samples =
      totals.map (fun (name, count) => requestsSample name count) ∧
    samplesNamed "litestore_commands_total" samples =
      [⟨"litestore_commands_total", [], toString (totals.map Prod.snd).sum⟩] ∧
    (totals.map Prod.snd).sum = observed.length

/-- The samples of a histogram's metric about an observed command are the command's own. -/
theorem Tallies.samplesOf_families (h : Tallies observed c) {metric : String}
    (latency : metric ∉ ["litestore_commands_total", "litestore_command_requests_total",
      "litestore_hot_key_access_total", "litestore_memory_by_prefix_bytes"])
    {o : Observation} (seen : o ∈ observed) :
    samplesOf metric o.request.command (c.families.flatMap Family.samples) =
      samplesNamed metric (c.latencySamples o.commandName) := by
  have distinct : (sortedNames c.latencyCountByCommand.keys).Nodup :=
    (List.perm_insertionSort _ _).nodup_iff.mpr c.latencyCountByCommand.keys_nodup
  have listed : o.commandName ∈ sortedNames c.latencyCountByCommand.keys :=
    (List.mem_insertionSort _).mpr ((h.latencies.mem_keys _).mpr (List.mem_map_of_mem seen))
  simp only [List.mem_cons, List.not_mem_nil, or_false, not_or] at latency
  obtain ⟨total, requests, hotKeys, memory⟩ := latency
  rw [samplesOf, samplesNamed_families, if_neg (Ne.symm total), if_neg (Ne.symm requests),
    if_neg (Ne.symm hotKeys), if_neg (Ne.symm memory), List.nil_append, List.nil_append, List.append_nil,
    List.append_nil]
  exact samplesOf_histograms c metric o.request.command distinct listed

theorem samplesNamed_histogramSamples (observed : List Observation) (command : CommandName) (metric : String) :
    samplesNamed metric (histogramSamples observed command) =
      if "litestore_command_latency_seconds_bucket" = metric then histogramSamples observed command else [] := by
  have bounds := samplesNamed_map (m := "litestore_command_latency_seconds_bucket") (f := fun bound =>
    bucketSample command.value (boundText bound) (numberUpTo observed command bound)) (fun _ => rfl)
    latencyBuckets metric
  have infinite := samplesNamed_map (m := "litestore_command_latency_seconds_bucket") (f := fun count : Nat =>
    bucketSample command.value "+Inf" count) (fun _ => rfl) [(durations observed command).length] metric
  rw [List.map_singleton] at infinite
  rw [histogramSamples, samplesNamed_append, bounds, infinite]
  split <;> rfl

/-- The page of a collector says what it has counted. -/
theorem Tallies.cumulative (h : Tallies observed c) :
    CumulativeHistogram observed (c.families.flatMap Family.samples) where
  buckets o seen := by
    rw [h.samplesOf_families (by decide) seen, Observation.commandName, h.latencySamples,
      samplesNamed_append, samplesNamed_histogramSamples, if_pos rfl]
    simp [samplesNamed, countSample, sumSample]
  rising command := by
    apply List.pairwise_append.mpr
    refine ⟨Histogram.pairwise_countP_le _ latencyBuckets_rising, List.pairwise_singleton _ _, ?_⟩
    intro count m all last
    obtain ⟨bound, _, rfl⟩ := List.mem_map.mp m
    rw [List.mem_singleton.mp last]
    exact List.countP_le_length
  counted o seen := by
    rw [h.samplesOf_families (by decide) seen, Observation.commandName, h.latencySamples,
      samplesNamed_append, samplesNamed_histogramSamples, if_neg (by decide)]
    simp [samplesNamed, countSample, sumSample]
  totals := by
    have sum := h.requests.sum
    rw [List.length_map] at sum
    refine ⟨(sortedNames c.throughputByCommand.keys).map fun name =>
      (name, (c.throughputByCommand.get? name).getD 0), ?_, ?_, ?_⟩
    · rw [samplesNamed_families, histograms_none c (by decide)]
      simp
    · rw [samplesNamed_families, histograms_none c (by decide), List.map_map]
      simp [h.total, ← sum, Function.comp_def]
    · rw [List.map_map]
      exact sum

/-- **The latency histogram.** Whatever requests were observed and whatever a store snapshot left, the page is
read back and its histograms cumulate. -/
theorem rendered_histogram (hash : Nat → String → Nat) (observed : List Observation) :
    ∃ c, init.observeAll hash observed = some c ∧
      ∀ memory, ∃ text samples,
        { c with memoryByPrefixBytes := memory }.renderPrometheus = some text ∧
        readPage text.toList = some samples ∧ CumulativeHistogram observed samples := by
  obtain ⟨c, done, _⟩ := observeAll_covers hash observed
  refine ⟨c, done, fun memory => ?_⟩
  have h := (init_tallies.observeAll done).beside c.hotKeyTracker memory
  obtain ⟨text, rendered, read⟩ := read_renderPrometheus h.printable
  exact ⟨text, _, rendered, read, h.cumulative⟩

end MetricsCollector
end LiteStore
