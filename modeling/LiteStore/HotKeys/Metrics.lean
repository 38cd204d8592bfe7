import LiteStore.HotKeys.Heap
import LiteStore.Lib.Binary64
import LiteStore.Protocol.Grammar
import Mathlib.Data.List.Dedup
import Mathlib.Data.Rat.Defs

/-!
# The metrics collector

`observe_command` counts a request for its command and hands its first argument to the hot-key
tracker, whatever the command. That is the key of `SET`, `GET`, `DEL`, `EXPIRE` and `TTL`, one of the
keys of `MGET`, and no key at all but the pattern of `KEYS`. A duration stands for its exact value;
sums of durations are rounded as sums of floats are.
-/

namespace LiteStore
set_option autoImplicit false
open Py

/-- `counter[key] += 1`. -/
def countOne {κ : Type} [DecidableEq κ] (counter : Dict κ Nat) (key : κ) : Dict κ Nat :=
  counter.set key ((counter.get? key).getD 0 + 1)

/-- `MetricsCollector`, but for its lock. A sum that is `none` is a NaN. -/
structure MetricsCollector where
  throughputTotal : Nat
  throughputByCommand : Dict String Nat
  latencySumByCommand : Dict String (Option Binary64.Number)
  latencyCountByCommand : Dict String Nat
  latencyBucketCounts : Dict String (Dict ℚ Nat)
  hotKeyTracker : TopKTracker
  memoryByPrefixBytes : Dict String Nat

/-- An observed request and its duration. -/
structure Observation where
  request : CommandRequest
  durationSeconds : ℚ

namespace MetricsCollector

/-- `_LATENCY_BUCKETS`: the floats next to these decimals. -/
def latencyBuckets : List ℚ :=
  [1 / 1000, 5 / 1000, 1 / 100, 5 / 100, 1 / 10, 5 / 10, 1, 5].map Binary64.nearest

theorem sketch_width_pos : 0 < 2048 := by decide

theorem sketch_depth_pos : 0 < 4 := by decide

theorem sketch_depth_le : 4 ≤ 256 := by decide

/-- `MetricsCollector()`. -/
def init : MetricsCollector where
  throughputTotal := 0
  throughputByCommand := .empty
  latencySumByCommand := .empty
  latencyCountByCommand := .empty
  latencyBucketCounts := .empty
  hotKeyTracker := .init 100 (.init 2048 4 sketch_width_pos sketch_depth_pos sketch_depth_le)
  memoryByPrefixBytes := .empty

/-- `_observe_latency_bucket`. -/
def observeLatencyBucket (c : MetricsCollector) (commandName : String) (durationSeconds : ℚ) :
    MetricsCollector :=
  let bucketCounts := (c.latencyBucketCounts.get? commandName).getD .empty
  let bucketCounts := match latencyBuckets.find? fun bucket => durationSeconds ≤ bucket with
    | some bucket => countOne bucketCounts bucket
    | none => bucketCounts
  { c with latencyBucketCounts := c.latencyBucketCounts.set commandName bucketCounts }

variable (hash : Nat → String → Nat)

/-- `observe_command`; `none` is an exception of the tracker. -/
def observeCommand (c : MetricsCollector) (o : Observation) : Option MetricsCollector :=
  let commandName := o.request.command.value
  let c := { c with
    throughputTotal := c.throughputTotal + 1
    throughputByCommand := countOne c.throughputByCommand commandName
    latencySumByCommand := c.latencySumByCommand.set commandName
      (((c.latencySumByCommand.get? commandName).getD (some 0)).bind fun sum =>
        sum.add (.round o.durationSeconds))
    latencyCountByCommand := countOne c.latencyCountByCommand commandName }
  let c := c.observeLatencyBucket commandName o.durationSeconds
  match o.request.args with
  | [] => some c
  | key :: _ => (c.hotKeyTracker.record hash key).map fun tracker => { c with hotKeyTracker := tracker }

/-- `observe_command` of one request after the other. -/
def observeAll (c : MetricsCollector) (observed : List Observation) : Option MetricsCollector :=
  observed.foldlM (observeCommand hash) c

/-- `hot_keys(limit)`; a negative limit leaves out the last entries. -/
def hotKeys (c : MetricsCollector) (limit : Int) : List (String × Nat) :=
  let top := c.hotKeyTracker.topK
  top.take (if 0 ≤ limit then limit.toNat else (top.length + limit).toNat)

end MetricsCollector

/-- The keys a request accesses. -/
def CommandRequest.accessedKeys (request : CommandRequest) : List String :=
  match request.command with
  | .SET | .GET | .DEL | .EXPIRE | .TTL => request.args.take 1
  | .MGET => request.args
  | .PING | .KEYS | .FLUSHALL => []

/-- The first argument is the only key: no pattern, and no second key of `MGET`. -/
def CommandRequest.SingleKey (request : CommandRequest) : Prop :=
  (request.command = .KEYS → request.args = []) ∧ (request.command = .MGET → request.args.length ≤ 1)

instance (request : CommandRequest) : Decidable request.SingleKey := inferInstanceAs (Decidable (_ ∧ _))

/-- A report about these accesses: its keys were accessed, at most as often as it says, and while
there are fewer than `k` of them none is missing. -/
structure Covers (k : Nat) (accesses : List String) (report : List (String × Nat)) : Prop where
  accessed : ∀ key count, (key, count) ∈ report → key ∈ accesses
  counted : ∀ key count, (key, count) ∈ report → accesses.count key ≤ count
  complete : accesses.dedup.length < k → ∀ key ∈ accesses, key ∈ report.map Prod.fst

/-! ## The tracker -/

namespace TopKTracker

variable {hash : Nat → String → Nat}

/-- An access tracks no other key. -/
theorem record_tracked {t t' : TopKTracker} {key other : String} (recorded : t.record hash key = some t')
    (tracked : t'.tracked.contains other = true) : other = key ∨ t.tracked.contains other = true := by
  obtain ⟨count, found⟩ := Dict.contains_iff.mp tracked
  rcases (recorded_of_record recorded).get? found with ⟨same, _⟩ | before
  · exact .inl same
  · exact .inr (Dict.contains_iff.mpr ⟨count, before⟩)

/-- Only accessed keys are tracked. -/
theorem recordAll_tracked {t t' : TopKTracker} {keys : List String} {other : String}
    (recorded : t.recordAll hash keys = some t') (tracked : t'.tracked.contains other = true) :
    other ∈ keys ∨ t.tracked.contains other = true := by
  induction keys generalizing t with
  | nil =>
    cases recorded
    exact .inr tracked
  | cons key keys ih =>
    obtain ⟨t₁, first, rest⟩ := Option.bind_eq_some_iff.mp recorded
    rcases ih rest with later | before
    · exact .inl (List.mem_cons_of_mem _ later)
    · rcases record_tracked first before with rfl | before
      · exact .inl List.mem_cons_self
      · exact .inr before

/-- A tracker's report is about the keys it has recorded. -/
theorem covers_recorded (hash : Nat → String → Nat) (k width depth : Nat) (width_pos : 0 < width)
    (depth_pos : 0 < depth) (depth_le : depth ≤ 256) (history : List String) :
    ∃ t, (init k (.init width depth width_pos depth_pos depth_le)).recordAll hash history = some t ∧
      Covers k history t.topK := by
  obtain ⟨t, recorded, h⟩ :=
    (init_follows hash k (.init width depth width_pos depth_pos depth_le)).recordAll history
  have accessed {key : String} (tracked : t.tracked.contains key = true) : key ∈ history :=
    (recordAll_tracked recorded tracked).resolve_right (by simp [init, Dict.contains, Dict.get?_empty])
  refine ⟨t, recorded, ?_, ?_, ?_⟩
  · intro key count m
    exact accessed (Dict.contains_iff.mpr ⟨count, mem_topK.mp m⟩)
  · intro key count m
    exact (h.counted key count (mem_topK.mp m)).1
  · intro few key m
    have distinct : (t.topK.map Prod.fst).Nodup :=
      ((List.perm_insertionSort _ _).map Prod.fst).nodup_iff.mpr t.tracked.nodup
    have sub : t.topK.map Prod.fst ⊆ history.dedup := fun key m =>
      List.mem_dedup.mpr (accessed ((mem_keys_topK t key).mp m))
    have size := (List.subperm_of_subset distinct sub).length_le
    rw [List.length_map, length_topK] at size
    exact (mem_keys_topK t key).mpr (h.room (by omega) key m)

end TopKTracker

/-! ## The collector -/

namespace MetricsCollector

variable {hash : Nat → String → Nat}

/-- Observing a request records its first argument, if it has one. -/
theorem observeCommand_tracker (c : MetricsCollector) (o : Observation) :
    (c.observeCommand hash o).map hotKeyTracker =
      c.hotKeyTracker.recordAll hash (o.request.args.take 1) := by
  cases args : o.request.args with
  | nil => simp [observeCommand, args, observeLatencyBucket, TopKTracker.recordAll]
  | cons key rest =>
    simp only [observeCommand, args, observeLatencyBucket, TopKTracker.recordAll, List.take_succ_cons,
      List.take_zero, List.foldlM_cons, List.foldlM_nil, Option.map_map]
    cases c.hotKeyTracker.record hash key <;> rfl

/-- Observing requests records the first arguments. -/
theorem observeAll_tracker (c : MetricsCollector) (observed : List Observation) :
    (c.observeAll hash observed).map hotKeyTracker =
      c.hotKeyTracker.recordAll hash (observed.flatMap fun o => o.request.args.take 1) := by
  induction observed generalizing c with
  | nil => rfl
  | cons o observed ih =>
    have split : c.hotKeyTracker.recordAll hash ((o :: observed).flatMap fun o => o.request.args.take 1) =
        (c.hotKeyTracker.recordAll hash (o.request.args.take 1)).bind fun tracker =>
          tracker.recordAll hash (observed.flatMap fun o => o.request.args.take 1) :=
      List.foldlM_append
    have step : c.observeAll hash (o :: observed) =
        (c.observeCommand hash o).bind fun c => c.observeAll hash observed := rfl
    rw [split, step, ← observeCommand_tracker]
    cases c.observeCommand hash o with
    | none => rfl
    | some c => exact ih c

/-- The report is about the first arguments. -/
theorem observeAll_covers (hash : Nat → String → Nat) (observed : List Observation) :
    ∃ c, init.observeAll hash observed = some c ∧
      Covers 100 (observed.flatMap fun o => o.request.args.take 1) c.hotKeyTracker.topK := by
  obtain ⟨t, recorded, covers⟩ := TopKTracker.covers_recorded hash 100 2048 4 sketch_width_pos
    sketch_depth_pos sketch_depth_le (observed.flatMap fun o => o.request.args.take 1)
  have tracked : (init.observeAll hash observed).map hotKeyTracker = _ := observeAll_tracker init observed
  obtain ⟨c, done, rfl⟩ := Option.map_eq_some_iff.mp (tracked.trans recorded)
  exact ⟨c, done, covers⟩

/-- The first argument of an accepted request is all that it accesses if it has a single key only. -/
theorem accessedKeys_iff {request : CommandRequest}
    (fits : request.Accepted) :
    request.accessedKeys = request.args.take 1 ↔ request.SingleKey := by
  obtain ⟨command, args, _, _⟩ := request
  cases command
  case PING | FLUSHALL =>
    rw [List.eq_nil_of_length_eq_zero fits]
    simp [CommandRequest.accessedKeys, CommandRequest.SingleKey]
  case KEYS =>
    rcases args with _ | ⟨pattern, rest⟩ <;>
      simp [CommandRequest.accessedKeys, CommandRequest.SingleKey]
  case MGET =>
    rcases args with _ | ⟨key, _ | ⟨more, rest⟩⟩ <;>
      simp [CommandRequest.accessedKeys, CommandRequest.SingleKey]
  all_goals simp [CommandRequest.accessedKeys, CommandRequest.SingleKey]

/-- **Hot keys.** If no observed request is a `KEYS` with a pattern or an `MGET` of several keys, the
report is about the keys accessed. -/
theorem hot_keys_cover (hash : Nat → String → Nat) (observed : List Observation)
    (accepted : ∀ o ∈ observed, ∃ line requestId clientId,
      parseCommand line requestId clientId = .ok o.request)
    (single : ∀ o ∈ observed, o.request.SingleKey) :
    ∃ c, init.observeAll hash observed = some c ∧
      Covers 100 (observed.flatMap fun o => o.request.accessedKeys) c.hotKeyTracker.topK ∧
      ∀ limit, c.hotKeys limit <+: c.hotKeyTracker.topK := by
  have keys : (observed.flatMap fun o => o.request.accessedKeys) =
      observed.flatMap fun o => o.request.args.take 1 := by
    refine List.flatMap_congr fun o m => ?_
    obtain ⟨line, requestId, clientId, parsed⟩ := accepted o m
    exact (accessedKeys_iff (parseCommand_fits parsed)).mpr (single o m)
  obtain ⟨c, observed, covers⟩ := observeAll_covers hash observed
  exact ⟨c, observed, keys ▸ covers, fun limit => List.take_prefix _ _⟩

/-- Reads of two keys, hashed as the code does. -/
theorem two_reads_covered :
    let observed : List Observation := [⟨{ command := .GET, args := ["a"] }, 1 / 1000⟩,
      ⟨{ command := .MGET, args := ["b"] }, 1 / 1000⟩]
    ∃ c, init.observeAll CountMinSketch.sha256Row observed = some c ∧
      Covers 100 (observed.flatMap fun o => o.request.accessedKeys) c.hotKeyTracker.topK ∧
      ∀ limit, c.hotKeys limit <+: c.hotKeyTracker.topK := by
  refine hot_keys_cover CountMinSketch.sha256Row _ ?_ (by decide)
  rintro o m
  rcases List.mem_pair.mp m with rfl | rfl
  · exact ⟨"GET a", none, none, by decide +kernel⟩
  · exact ⟨"MGET b", none, none, by decide +kernel⟩

/-- The pattern of a `KEYS` is reported as a key. -/
theorem pattern_reported :
    ¬ ∀ observed : List Observation,
      (∀ o ∈ observed, ∃ line requestId clientId,
        parseCommand line requestId clientId = .ok o.request) →
      ∃ c, init.observeAll CountMinSketch.sha256Row observed = some c ∧
        Covers 100 (observed.flatMap fun o => o.request.accessedKeys) c.hotKeyTracker.topK := by
  intro claim
  let keys : Observation := ⟨{ command := .KEYS, args := ["user:*"] }, 1 / 1000⟩
  obtain ⟨c, observed, covers⟩ := claim [keys] (by
    rintro o m
    rw [List.mem_singleton.mp m]
    exact ⟨"KEYS user:*", none, none, by decide +kernel⟩)
  obtain ⟨c', observed', recorded⟩ := observeAll_covers CountMinSketch.sha256Row [keys]
  rw [observed] at observed'
  cases observed'
  have reported : "user:*" ∈ c.hotKeyTracker.topK.map Prod.fst :=
    recorded.complete (by decide) "user:*" (by decide)
  obtain ⟨⟨key, count⟩, m, rfl⟩ := List.mem_map.mp reported
  exact absurd (covers.accessed _ count m) (by decide)

end MetricsCollector
end LiteStore
