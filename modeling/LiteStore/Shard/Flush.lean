import LiteStore.Shard.Exact

/-!
# Flushing every partition

`FLUSHALL` names no key, so it is routed to the default worker and flushes that
store alone: the database is empty afterwards exactly when the other stores were
empty before.
-/

namespace LiteStore
set_option autoImplicit false
open Py MemoryStore

/-- The keys that the expiry passes at the readings of an execution leave. -/
def liveKeys (s : MemoryStore ℚ) (clock : Clock ℚ) : List String :=
  ((s.pass (clock 0)).pass (clock 1)).data.keys

/-- A store that holds nothing has no live keys. -/
theorem live_empty {s : MemoryStore ℚ} (h : s.Valid) (empty : s.data = Dict.empty) (clock : Clock ℚ) :
    ((s.pass (clock 0)).pass (clock 1)).data = Dict.empty := by
  refine Dict.eq_empty_of_get? fun k => Option.eq_none_iff_forall_ne_some.mpr fun v found => ?_
  have held := pass_data_sub h (pass_data_sub (pass_valid h (clock 0)) found)
  rw [empty] at held
  cases held

namespace LiteStoreRuntime

variable (hash : String → Nat)

/-- The number of live keys of all workers. -/
def totalLive (rt : LiteStoreRuntime ℚ) (clock : Clock ℚ) : Nat :=
  (rt.workers.values.map fun w => (liveKeys w.store clock).length).sum

/-- A total to which only one worker contributes. -/
theorem sum_values {ν : Type} (f : ν → Nat) {d : Dict String ν} {id : String} {w : ν}
    (found : d.get? id = some w) (others : ∀ i v, d.get? i = some v → i ≠ id → f v = 0) :
    (d.values.map f).sum = f w := by
  obtain ⟨entries, nodup⟩ := d
  have member : (id, w) ∈ entries := Dict.mem_entries.mpr found
  have zero : ∀ i v, (i, v) ∈ entries → i ≠ id → f v = 0 := fun i v m =>
    others i v (Dict.mem_entries.mp m)
  clear found others
  show ((entries.map Prod.snd).map f).sum = f w
  induction entries with
  | nil => cases member
  | cons e entries ih =>
    obtain ⟨i, v⟩ := e
    obtain ⟨fresh, distinct⟩ := List.nodup_cons.mp nodup
    rw [List.map_cons, List.map_cons, List.sum_cons]
    rcases List.mem_cons.mp member with here | later
    · cases here
      have rest : ∀ n ∈ (entries.map Prod.snd).map f, n = 0 := by
        intro n listed
        obtain ⟨u, value, rfl⟩ := List.mem_map.mp listed
        obtain ⟨⟨i, u⟩, entry, rfl⟩ := List.mem_map.mp value
        refine zero i u (List.mem_cons_of_mem _ entry) fun same => fresh ?_
        exact List.mem_map.mpr ⟨(i, u), entry, same⟩
      rw [List.sum_eq_zero rest, Nat.add_zero]
    · have other : i ≠ id := by
        rintro rfl
        exact fresh (List.mem_map.mpr ⟨(i, w), later, rfl⟩)
      rw [zero i v (by simp) other, Nat.zero_add]
      exact ih distinct later fun i v m => zero i v (List.mem_cons_of_mem _ m)

/-- What the dispatch of a `FLUSHALL` promises: it answers the number of live keys of all
workers, leaves every store empty, and every key reads as missing afterwards. -/
structure Emptied (rt : LiteStoreRuntime ℚ) (request : CommandRequest) (clock : Clock ℚ)
    (dispatched : CommandResponse × LiteStoreRuntime ℚ) : Prop where
  answer : dispatched.1 = integerResponse request (rt.totalLive clock)
  stores : ∀ id w, dispatched.2.workers.get? id = some w → w.store.data = Dict.empty
  missing : ∀ (get : CommandRequest) (key : String) (clock' : Clock ℚ) (append : LogOutcome),
    get.command = .GET → get.args = [key] →
      (Id.run (dispatched.2.dispatchRequest hash clock' append get)).1 = valueResponse get none

/-- The other workers hold nothing. -/
def OthersEmpty (rt : LiteStoreRuntime ℚ) : Prop :=
  ∀ id w, rt.workers.get? id = some w → id ≠ rt.router.defaultWorker → w.store.data = Dict.empty

variable {rt : LiteStoreRuntime ℚ}

/-- A runtime whose stores are empty finds no key. -/
theorem get_missing (valid : rt.AllValid)
    (empty : ∀ id w, rt.workers.get? id = some w → w.store.data = Dict.empty) {get : CommandRequest}
    {key : String} (command : get.command = .GET) (args : get.args = [key]) (clock : Clock ℚ)
    (append : LogOutcome) :
    (Id.run (rt.dispatchRequest hash clock append get)).1 = valueResponse get none := by
  obtain ⟨name, list, i, j⟩ := get
  cases command
  cases args
  have found := get?_worker rt (rt.router.routeRequest_mem hash ⟨.GET, [key], i, j⟩)
  have live := live_empty (valid _ _ found) (empty _ _ found) clock
  have response : (Id.run (rt.executeRouted hash clock ⟨.GET, [key], i, j⟩)).1 =
      valueResponse ⟨.GET, [key], i, j⟩ none := by
    rw [executeRouted_exact, StoreWorker.execute_exact]
    exact congrArg (fun d : Dict String String => valueResponse ⟨.GET, [key], i, j⟩ (d.get? key)) live
  rw [(dispatchRequest_exact hash rt clock append _).2.2 ?_, response]
  rw [response]
  rfl

/-- **Flushing every partition.** On any valid runtime: the dispatch of a `FLUSHALL` counts and
empties the whole database if and only if the other workers hold nothing. -/
theorem emptied_iff (valid : rt.AllValid) {request : CommandRequest}
    (command : request.command = .FLUSHALL) (args : request.args = []) (clock : Clock ℚ)
    (append : LogOutcome) :
    Emptied hash rt request clock (Id.run (rt.dispatchRequest hash clock append request)) ↔
      rt.OthersEmpty := by
  obtain ⟨name, list, i, j⟩ := request
  cases command
  cases args
  set request : CommandRequest := ⟨.FLUSHALL, [], i, j⟩ with hrequest
  obtain ⟨workers, _, response⟩ := dispatchRequest_exact hash rt clock append request
  set known := rt.router.routeRequest_mem hash request
  have route : (rt.router.routeRequest hash request).workerId = rt.router.defaultWorker := rfl
  have stores (id : String) :
      (Id.run (rt.dispatchRequest hash clock append request)).2.workers.get? id =
        if id = rt.router.defaultWorker then
          some { rt.chosen hash request with store := fresh TimingWheel.default }
        else rt.workers.get? id := by
    rw [workers, executeRouted_workers]
    rfl
  constructor
  · intro emptied id w found other
    refine emptied.stores id w ?_
    rw [stores, if_neg other]
    exact found
  · intro others
    have empty : ∀ id w, (Id.run (rt.dispatchRequest hash clock append request)).2.workers.get? id =
        some w → w.store.data = Dict.empty := by
      intro id w found
      rw [stores] at found
      split at found
      · cases found
        rfl
      · rename_i other
        exact others id w found other
    refine ⟨?_, empty, fun get key clock' append' command args => ?_⟩
    · have here : rt.workers.get? rt.router.defaultWorker = some (rt.chosen hash request) :=
        get?_worker rt known
      have total : rt.totalLive clock = (liveKeys (rt.chosen hash request).store clock).length := by
        refine sum_values (fun w : StoreWorker ℚ => (liveKeys w.store clock).length) here ?_
        intro id w found other
        simp only [liveKeys, live_empty (valid id w found) (others id w found other)]
        rfl
      rw [total, response rfl, executeRouted_exact, StoreWorker.execute_exact]
      have size := Dict.length_keys
        (((rt.chosen hash request).store.pass (clock 0)).pass (clock 1)).data
      exact congrArg (fun n : Nat => integerResponse request n) size.symm
    · exact get_missing hash (valid.dispatchRequest hash clock append request) empty command args
        clock' append'

/-- **`FLUSHALL` on the in-process runtime.** In every state that a runtime of any number of
workers reaches, whatever its log and its history of requests and refreshes: `FLUSHALL` counts and
empties the whole database if and only if the other workers than the default one hold nothing. -/
theorem flushall_iff (workerCount : Nat) (positive : 0 < workerCount) (file : List Char)
    (clocks : Nat → Clock ℚ) (events : List RuntimeEvent) (requestId clientId : Option String)
    (clock : Clock ℚ) (append : LogOutcome) :
    let rt := events.foldl (advance hash) (started hash workerCount positive file clocks)
    let request : CommandRequest := ⟨.FLUSHALL, [], requestId, clientId⟩
    Emptied hash rt request clock (Id.run (rt.dispatchRequest hash clock append request)) ↔
      rt.OthersEmpty :=
  emptied_iff hash (reached_allValid hash workerCount positive file clocks events) rfl rfl clock append

/-- The dispatch of a request without ids at a clock that stands still. -/
def dispatchAt (t : ℚ) (command : CommandName) (args : List String) : RuntimeEvent :=
  .dispatch { command := command, args := args } (Clock.still t) .done

/-- With one worker there are no others. -/
theorem one_worker_flushed :
    let rt := [dispatchAt 1 .SET ["d", "v"]].foldl (advance Sha256.leading)
      (started Sha256.leading 1 (by decide) [] fun _ => Clock.still 0)
    Emptied Sha256.leading rt ⟨.FLUSHALL, [], none, none⟩ (Clock.still 2)
      (Id.run (rt.dispatchRequest Sha256.leading (Clock.still 2) .done ⟨.FLUSHALL, [], none, none⟩)) := by
  refine (flushall_iff Sha256.leading 1 (by decide) [] (fun _ => Clock.still 0)
    [dispatchAt 1 .SET ["d", "v"]] none none (Clock.still 2) .done).mpr ?_
  intro id w found other
  have keys : ([dispatchAt 1 .SET ["d", "v"]].foldl (advance Sha256.leading)
      (started Sha256.leading 1 (by decide) [] fun _ => Clock.still 0)).workers.keys = ["w0"] := by
    decide +kernel
  have first : ([dispatchAt 1 .SET ["d", "v"]].foldl (advance Sha256.leading)
      (started Sha256.leading 1 (by decide) [] fun _ => Clock.still 0)).router.defaultWorker = "w0" := by
    decide +kernel
  have listed := Dict.mem_keys.mpr ⟨w, found⟩
  rw [keys, List.mem_singleton] at listed
  rw [first] at other
  exact absurd listed other

/-- A key on the second of two workers survives. -/
theorem second_worker_unflushed :
    ¬ ∀ (workerCount : Nat) (positive : 0 < workerCount) (file : List Char)
      (clocks : Nat → Clock ℚ) (events : List RuntimeEvent) (requestId clientId : Option String)
      (clock : Clock ℚ) (append : LogOutcome),
      let rt := events.foldl (advance Sha256.leading)
        (started Sha256.leading workerCount positive file clocks)
      let request : CommandRequest := ⟨.FLUSHALL, [], requestId, clientId⟩
      Emptied Sha256.leading rt request clock
        (Id.run (rt.dispatchRequest Sha256.leading clock append request)) := by
  intro claim
  have emptied := claim 2 (by decide) [] (fun _ => Clock.still 0) [dispatchAt 1 .SET ["d", "v"]] none none
    (Clock.still 2) .done
  have survives : ((Id.run (([dispatchAt 1 .SET ["d", "v"]].foldl (advance Sha256.leading)
      (started Sha256.leading 2 (by decide) [] fun _ => Clock.still 0)).dispatchRequest Sha256.leading
        (Clock.still 2) .done ⟨.FLUSHALL, [], none, none⟩)).2.workers.get? "w1").map
          (fun w => w.store.data.get? "d") = some (some "v") := by decide +kernel
  obtain ⟨w, found, value⟩ := Option.map_eq_some_iff.mp survives
  rw [emptied.stores "w1" w found] at value
  cases value

end LiteStoreRuntime
end LiteStore
