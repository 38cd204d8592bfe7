import LiteStore.Server.LastWrite
import LiteStore.Server.Scrape
import LiteStore.Shard.Owned

/-!
# The memory gauge

`_refresh_metrics_snapshot` counts the bytes of the stored keys and values by key prefix. As no key is
held by two workers, it counts each once, so until the next refresh the page shows what the workers held
then, whatever is executed meanwhile.
-/

namespace LiteStore
set_option autoImplicit false
open Py Exposition

/-! ## One snapshot -/

/-- The bytes of a key and its value. -/
def entrySize (entry : String × String) : Nat := entry.1.utf8ByteSize + entry.2.utf8ByteSize

/-- The bytes of the entries whose keys have a prefix. -/
def groupSize (entries : List (String × String)) (group : String) : Nat :=
  ((entries.filter fun entry => keyPrefix entry.1 = group).map entrySize).sum

/-- The totals by prefix of these entries. -/
def TotalsOf (entries : List (String × String)) (totals : Dict String Nat) : Prop :=
  ∀ group size, totals.get? group = some size ↔
    (∃ entry ∈ entries, keyPrefix entry.1 = group) ∧ size = groupSize entries group

theorem groupSize_snoc (entries : List (String × String)) (entry : String × String) (group : String) :
    groupSize (entries ++ [entry]) group =
      groupSize entries group + if keyPrefix entry.1 = group then entrySize entry else 0 := by
  rw [groupSize, List.filter_append, List.map_append, List.sum_append]
  by_cases same : keyPrefix entry.1 = group <;> simp [groupSize, same]

theorem TotalsOf.getD {entries : List (String × String)} {totals : Dict String Nat} (h : TotalsOf entries totals)
    (group : String) : (totals.get? group).getD 0 = groupSize entries group := by
  cases found : totals.get? group with
  | some size => exact ((h group size).mp found).2
  | none =>
    have absent : ∀ entry ∈ entries, keyPrefix entry.1 ≠ group := by
      intro entry m same
      have listed := (h group _).mpr ⟨⟨entry, m, same⟩, rfl⟩
      rw [found] at listed
      cases listed
    have empty : entries.filter (fun entry => keyPrefix entry.1 = group) = [] := by
      rw [List.filter_eq_nil_iff]
      exact fun entry m same => absent entry m (of_decide_eq_true same)
    rw [groupSize, empty]
    rfl

theorem TotalsOf.perm {entries entries' : List (String × String)} {totals : Dict String Nat}
    (h : TotalsOf entries totals) (perm : entries.Perm entries') : TotalsOf entries' totals := by
  intro group size
  have same : groupSize entries group = groupSize entries' group := ((perm.filter _).map _).sum_eq
  rw [h, same]
  refine and_congr_left fun _ => ?_
  exact exists_congr fun entry => and_congr_left fun _ => perm.mem_iff

namespace MetricsCollector

variable (c : MetricsCollector)

/-- One more entry. -/
theorem addEntry_totals {entries : List (String × String)} {totals : Dict String Nat} (h : TotalsOf entries totals)
    (entry : String × String) : TotalsOf (entries ++ [entry]) (addEntry totals entry) := by
  intro group size
  have found : (∃ e ∈ entries ++ [entry], keyPrefix e.1 = group) ↔
      (∃ e ∈ entries, keyPrefix e.1 = group) ∨ keyPrefix entry.1 = group := by
    simp [or_and_right, exists_or]
  rw [addEntry, Dict.get?_set, found, groupSize_snoc, entrySize]
  by_cases same : keyPrefix entry.1 = group
  · rw [if_pos same.symm, if_pos same, same, h.getD, Option.some.injEq]
    exact ⟨fun total => ⟨.inr rfl, total.symm⟩, fun total => total.2.symm⟩
  · rw [if_neg (Ne.symm same), if_neg same, or_iff_left same, Nat.add_zero, h]

theorem foldl_totals (entries : List (String × String)) : TotalsOf entries (entries.foldl addEntry .empty) := by
  induction entries using List.reverseRecOn with
  | nil => simp [TotalsOf]
  | append_singleton entries entry ih =>
    rw [List.foldl_concat]
    exact addEntry_totals ih entry

theorem observeStoreSnapshot_totals (data : Dict String String) :
    TotalsOf data.entries (c.observeStoreSnapshot data).memoryByPrefixBytes := foldl_totals data.entries

theorem toString_injective {n m : Nat} (same : toString n = toString m) : n = m := by
  have digits := congrArg (fun text : String => Nat.ofDigitChars 10 text.toList 0) same
  simpa only [Nat.toString_eq_repr, Nat.toList_repr, Nat.ofDigitChars_ten_toDigits] using digits

/-- The samples of the gauge on the page. -/
theorem mem_memorySamples (group : String) (size : Nat) :
    memorySample group size ∈ c.families.flatMap Family.samples ↔
      c.memoryByPrefixBytes.get? group = some size := by
  have apart {name : String} {labels : List (String × String)} {text : String}
      (other : name ≠ "litestore_memory_by_prefix_bytes") : memorySample group size ≠ ⟨name, labels, text⟩ :=
    fun same => other (congrArg Sample.name same).symm
  simp only [families, List.flatMap_cons, List.flatMap_nil, List.append_nil, List.mem_append, List.mem_singleton,
    List.mem_map, List.mem_flatMap]
  constructor
  · rintro (total | ⟨name, _, same⟩ | ⟨name, _, latency⟩ | ⟨entry, _, same⟩ | ⟨name, listed, same⟩)
    · exact absurd total (apart (by decide))
    · exact absurd same.symm (apart (by decide))
    · rcases mem_latencySamples latency with ⟨bound, count, same⟩ | ⟨count, same⟩ | ⟨sum, same⟩
      · exact absurd same (apart (by decide))
      · exact absurd same (apart (by decide))
      · exact absurd same (apart (by decide))
    · exact absurd same.symm (apart (by decide))
    · obtain ⟨n, found⟩ := Dict.mem_keys.mp ((List.mem_insertionSort _).mp listed)
      rw [found] at same
      simp only [memorySample, Sample.mk.injEq, List.cons.injEq, Prod.mk.injEq, true_and, and_true,
        Option.getD_some] at same
      obtain ⟨rfl, texts⟩ := same
      rw [found, toString_injective texts]
  · intro found
    refine .inr (.inr (.inr (.inr ⟨group, ?_, by rw [found]; rfl⟩)))
    exact (List.mem_insertionSort _).mpr (Dict.mem_keys.mpr ⟨size, found⟩)

end MetricsCollector

/-! ## The shared state -/

namespace Backend

variable {hash : String → Nat} {rowHash : Nat → String → Nat} {b : Backend}

/-- The metrics count, and every key is with its owner. -/
def Ordered (hash : String → Nat) (rowHash : Nat → String → Nat) (b : Backend) : Prop :=
  (∃ observed, b.Counted rowHash observed) ∧ b.runtime.Owned hash

theorem Ordered.step (h : b.Ordered hash rowHash) (job : Job) :
    ((serial hash rowHash).step b job).2.Ordered hash rowHash := by
  obtain ⟨⟨observed, counted⟩, owned⟩ := h
  refine ⟨counted.step job, ?_⟩
  rcases step_runtime hash counted job with ⟨clocks, _, left⟩ | ⟨_, left⟩ |
    ⟨request, clock, append, _, _, _, left⟩ <;> rw [left]
  · exact owned.refresh clocks _ _
  · exact owned
  · exact owned.dispatchRequest clock append request

theorem Ordered.refreshMetricsSnapshot (h : b.Ordered hash rowHash) (clocks : Nat → Clock ℚ) :
    (b.refreshMetricsSnapshot clocks).Ordered hash rowHash := h.step (.refresh clocks)

/-- What a refresh counts. -/
theorem refresh_totals (h : b.runtime.Owned hash) (clocks : Nat → Clock ℚ) :
    TotalsOf (b.refreshMetricsSnapshot clocks).runtime.stored
      (b.refreshMetricsSnapshot clocks).metrics.memoryByPrefixBytes :=
  (b.metrics.observeStoreSnapshot_totals _).perm (h.refresh_aggregated clocks)

/-- A line leaves the gauge. -/
theorem line_memory (i : Nat) (raw : List UInt8) (connectionId requestId : String) (clock : Clock ℚ)
    (append : LogOutcome) (durationSeconds : ℚ) :
    ((serial hash rowHash).step b (.line i raw connectionId requestId clock append durationSeconds)
      ).2.metrics.memoryByPrefixBytes = b.metrics.memoryByPrefixBytes := by
  show (b.processCommandBytes hash rowHash clock append durationSeconds raw connectionId requestId
    ).2.metrics.memoryByPrefixBytes = _
  rw [processCommandBytes]
  split
  · rfl
  · rename_i request _
    dsimp only
    split
    · rfl
    · rename_i metrics observes
      have same := @observeCommand_memory rowHash b.metrics ⟨request, durationSeconds⟩
        b.metrics.memoryByPrefixBytes
      rw [observes, Option.map_some] at same
      have kept := congrArg MetricsCollector.memoryByPrefixBytes (Option.some.inj same)
      exact kept

end Backend

namespace Server
open Backend

variable {hash : String → Nat} {rowHash : Nat → String → Nat} {s : Server}

/-- An event that is not the round of the refreshing task leaves the gauge. -/
theorem step_memory {event : ServerEvent} (quiet : ∀ clocks, event ≠ .refresh clocks) :
    ((machine hash rowHash).step s event).2.backend.metrics.memoryByPrefixBytes =
      s.backend.metrics.memoryByPrefixBytes := by
  cases event with
  | refresh clocks => exact absurd rfl (quiet clocks)
  | round i clock append durationSeconds =>
    simp only [machine]
    split
    · rfl
    · split
      · rw [Server.round]
        split
        · rfl
        · split
          · rfl
          · rfl
          · rfl
          · exact line_memory i ..
      · rfl
  | _ => rfl

/-- What the page of a state shows of the memory: for each prefix of a stored key the bytes of the keys that have
it and of their values, each key counted once and at its owner, and nothing else. -/
structure MemoryShown (hash : String → Nat) (stored : LiteStoreRuntime ℚ) (metrics : MetricsCollector) : Prop where
  owned : stored.OwnsKeys hash
  once : (stored.stored.map Prod.fst).Nodup
  page : ∃ text samples, metrics.renderPrometheus = some text ∧ readPage text.toList = some samples ∧
    ∀ group size, MetricsCollector.memorySample group size ∈ samples ↔
      (∃ k v, stored.Holds k v ∧ keyPrefix k = group) ∧ size = groupSize stored.stored group

theorem started_ordered (hash : String → Nat) (rowHash : Nat → String → Nat) (workerCount : Nat)
    (positive : 0 < workerCount) (file : List Char) (clocks snapshotClocks : Nat → Clock ℚ) :
    (started hash workerCount positive file clocks snapshotClocks).backend.Ordered hash rowHash := by
  refine Ordered.refreshMetricsSnapshot ⟨⟨[], .init, rfl, rfl⟩, ?_⟩ snapshotClocks
  exact LiteStoreRuntime.started_owned hash workerCount positive file clocks

/-- The page of a state whose gauge holds these totals. -/
theorem memoryShown_of_totals {stored : LiteStoreRuntime ℚ} (owned : stored.Owned hash) {b : Backend}
    (counts : ∃ observed, b.Counted rowHash observed)
    (totals : TotalsOf stored.stored b.metrics.memoryByPrefixBytes) : MemoryShown hash stored b.metrics := by
  refine ⟨owned.ownsKeys, owned.stored_nodup, ?_⟩
  obtain ⟨observed, counted⟩ := counts
  obtain ⟨text, rendered, read⟩ := MetricsCollector.read_renderPrometheus counted.tallies.printable
  refine ⟨text, _, rendered, read, fun group size => ?_⟩
  rw [MetricsCollector.mem_memorySamples, totals]
  simp only [Prod.exists, LiteStoreRuntime.mem_stored]

/-- **The memory gauge.** In every run, on any log and whatever happens in it, the page shows the bytes that the
workers held when the metrics were refreshed last (at the start, if not since). -/
theorem memory_shown (hash : String → Nat) (rowHash : Nat → String → Nat) (workerCount : Nat)
    (positive : 0 < workerCount) (file : List Char) (clocks snapshotClocks : Nat → Clock ℚ)
    (events : List ServerEvent) :
    let start := started hash workerCount positive file clocks snapshotClocks
    ∃ earlier later, events = earlier ++ later ∧ (∀ clocks, .refresh clocks ∉ later) ∧
      (earlier = [] ∨ ∃ before clocks, earlier = before ++ [.refresh clocks]) ∧
      MemoryShown hash ((machine hash rowHash).after start earlier).backend.runtime
        ((machine hash rowHash).after start events).backend.metrics := by
  intro start
  have ordered (events : List ServerEvent) :
      ((machine hash rowHash).after start events).backend.Ordered hash rowHash := by
    have serial := (run_explained hash rowHash workerCount positive file clocks snapshotClocks events).backend
    rw [serial]
    exact (Backend.serial hash rowHash).invariant
      (started_ordered hash rowHash workerCount positive file clocks snapshotClocks) (fun _ job h => h.step job) _
  -- The gauge is that of the last refresh.
  have gauge : ∃ earlier later, events = earlier ++ later ∧ (∀ clocks, .refresh clocks ∉ later) ∧
      (earlier = [] ∨ ∃ before clocks, earlier = before ++ [.refresh clocks]) ∧
      TotalsOf ((machine hash rowHash).after start earlier).backend.runtime.stored
        ((machine hash rowHash).after start events).backend.metrics.memoryByPrefixBytes := by
    induction events using List.reverseRecOn with
    | nil => exact ⟨[], [], rfl, fun _ => List.not_mem_nil, .inl rfl, refresh_totals
        (LiteStoreRuntime.started_owned hash workerCount positive file clocks) snapshotClocks⟩
    | append_singleton events event ih =>
      rw [Machine.after_append]
      by_cases refresh : ∃ clocks, event = .refresh clocks
      · obtain ⟨clocks', rfl⟩ := refresh
        refine ⟨events ++ [.refresh clocks'], [], (List.append_nil _).symm, fun _ => List.not_mem_nil,
          .inr ⟨events, clocks', rfl⟩, ?_⟩
        rw [Machine.after_append]
        exact refresh_totals (ordered events).2 clocks'
      · obtain ⟨earlier, later, rfl, quiet, last, totals⟩ := ih
        refine ⟨earlier, later ++ [event], List.append_assoc .., fun clocks m => ?_, last, ?_⟩
        · rcases List.mem_append.mp m with m | m
          · exact quiet clocks m
          · exact refresh ⟨clocks, (List.mem_singleton.mp m).symm⟩
        · rw [Machine.after_cons, Machine.after_nil, step_memory fun clocks same => refresh ⟨clocks, same⟩]
          exact totals
  obtain ⟨earlier, later, split, quiet, last, totals⟩ := gauge
  exact ⟨earlier, later, split, quiet, last, memoryShown_of_totals (ordered earlier).2 (ordered events).1 totals⟩

/-- A key is stored, counted and then deleted. -/
def gaugedRun : List ServerEvent :=
  [.connected none, .dataReceived 0 [83, 69, 84, 32, 97, 58, 98, 32, 118, 10], .round 0 (Clock.still 1) .done 0,
   .refresh fun _ => Clock.still 1, .dataReceived 0 [68, 69, 76, 32, 97, 58, 98, 10],
   .round 0 (Clock.still 2) .done 0]

theorem gaugedRun_shown :
    let start := started Sha256.leading 2 Nat.two_pos [] (fun _ => Clock.still 0) fun _ => Clock.still 0
    ∃ earlier later, gaugedRun = earlier ++ later ∧ (∀ clocks, .refresh clocks ∉ later) ∧
      (earlier = [] ∨ ∃ before clocks, earlier = before ++ [.refresh clocks]) ∧
      MemoryShown Sha256.leading
        ((machine Sha256.leading CountMinSketch.sha256Row).after start earlier).backend.runtime
        ((machine Sha256.leading CountMinSketch.sha256Row).after start gaugedRun).backend.metrics :=
  memory_shown Sha256.leading CountMinSketch.sha256Row 2 Nat.two_pos [] _ _ gaugedRun

end Server
end LiteStore
