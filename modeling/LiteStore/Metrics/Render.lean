import LiteStore.HotKeys.Metrics
import LiteStore.Lib.Exposition
import LiteStore.Py.FloatRepr
import LiteStore.Py.Text
import Mathlib.Data.String.Basic

/-!
# The metrics page

`render_prometheus` writes one page in the text exposition format: the totals, the latency histogram
of each command, the hot keys and the memory by key prefix. Command names go into their labels as
they are, which is safe for the names there are; keys and prefixes are escaped.
-/

namespace LiteStore
set_option autoImplicit false
open Py

/-- `_key_prefix(key)`. -/
def keyPrefix (key : String) : String :=
  if ':' ∈ key.toList then String.ofList (key.toList.takeWhile fun c => c ≠ ':') else "default"

/-- `_escape_label_value(value)`. -/
def escapeLabelValue (value : String) : String :=
  String.ofList (replaceChar '\n' ['\\', 'n'] (replaceChar '"' ['\\', '"']
    (replaceChar '\\' ['\\', '\\'] value.toList)))

/-- `sorted(names)`. -/
def sortedNames (names : List String) : List String := names.insertionSort fun a b => a ≤ b

namespace MetricsCollector

/-- The body of the loop of `observe_store_snapshot`. -/
def addEntry (totals : Dict String Nat) : String × String → Dict String Nat
  | (key, value) => totals.set (keyPrefix key)
      ((totals.get? (keyPrefix key)).getD 0 + (key.utf8ByteSize + value.utf8ByteSize))

/-- `observe_store_snapshot(data)`. -/
def observeStoreSnapshot (c : MetricsCollector) (data : Dict String String) : MetricsCollector :=
  { c with memoryByPrefixBytes := data.entries.foldl addEntry .empty }

/-! ## Lines -/

/-- The text of a bucket's bound. -/
def boundText (bound : ℚ) : String := strFloat (some (.round bound))

/-- The comments in front of a metric. -/
def header (name help kind : String) : List String :=
  ["# HELP " ++ name ++ " " ++ help, "# TYPE " ++ name ++ " " ++ kind]

def requestsLine (commandName : String) (count : Nat) : String :=
  "litestore_command_requests_total\x7bcommand=\"" ++ commandName ++ "\"\x7d " ++ toString count

def bucketLine (commandName bound : String) (count : Nat) : String :=
  "litestore_command_latency_seconds_bucket\x7bcommand=\"" ++ commandName ++ "\",le=\"" ++ bound ++ "\"\x7d " ++
    toString count

def countLine (commandName : String) (count : Nat) : String :=
  "litestore_command_latency_seconds_count\x7bcommand=\"" ++ commandName ++ "\"\x7d " ++ toString count

def sumLine (commandName : String) (sum : Option Binary64.Number) : String :=
  "litestore_command_latency_seconds_sum\x7bcommand=\"" ++ commandName ++ "\"\x7d " ++ strFloat sum

def hotKeyLine (entry : String × Nat) : String :=
  "litestore_hot_key_access_total\x7bkey=\"" ++ escapeLabelValue entry.1 ++ "\"\x7d " ++ toString entry.2

def memoryLine (group : String) (size : Nat) : String :=
  "litestore_memory_by_prefix_bytes\x7bprefix=\"" ++ escapeLabelValue group ++ "\"\x7d " ++ toString size

/-- The loop over the buckets of a command. -/
def bucketLines (commandName : String) (bucketCounts : Dict ℚ Nat) : Nat → List ℚ → List String
  | _, [] => []
  | cumulative, bucket :: buckets =>
    let cumulative := cumulative + (bucketCounts.get? bucket).getD 0
    bucketLine commandName (boundText bucket) cumulative :: bucketLines commandName bucketCounts cumulative buckets

/-- The lines of a command's histogram; `none` is the `KeyError` of its sum. -/
def latencyLines (c : MetricsCollector) (commandName : String) : Option (List String) := do
  let bucketCounts := (c.latencyBucketCounts.get? commandName).getD .empty
  let totalCount := (c.latencyCountByCommand.get? commandName).getD 0
  let sum ← c.latencySumByCommand.get? commandName
  return bucketLines commandName bucketCounts 0 latencyBuckets ++
    [bucketLine commandName "+Inf" totalCount, countLine commandName totalCount, sumLine commandName sum]

/-- `render_prometheus()`. -/
def renderPrometheus (c : MetricsCollector) : Option String := do
  let latency ← (sortedNames c.latencyCountByCommand.keys).mapM c.latencyLines
  let lines :=
    header "litestore_commands_total" "Total number of executed commands." "counter" ++
    ["litestore_commands_total " ++ toString c.throughputTotal] ++
    header "litestore_command_requests_total" "Total requests by command." "counter" ++
    (sortedNames c.throughputByCommand.keys).map (fun commandName =>
      requestsLine commandName ((c.throughputByCommand.get? commandName).getD 0)) ++
    header "litestore_command_latency_seconds" "Command latency by command." "histogram" ++
    latency.flatten ++
    header "litestore_hot_key_access_total" "Access count by key." "gauge" ++
    c.hotKeyTracker.topK.map hotKeyLine ++
    header "litestore_memory_by_prefix_bytes" "Approximate memory used by key prefix." "gauge" ++
    (sortedNames c.memoryByPrefixBytes.keys).map fun group =>
      memoryLine group ((c.memoryByPrefixBytes.get? group).getD 0)
  return "\n".intercalate lines ++ "\n"

/-- The bounds as they are written. -/
theorem boundTexts : latencyBuckets.map boundText =
    ["0.001", "0.005", "0.01", "0.05", "0.1", "0.5", "1.0", "5.0"] := by decide +kernel

end MetricsCollector
end LiteStore
