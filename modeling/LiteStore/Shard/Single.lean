import LiteStore.Protocol.Grammar
import LiteStore.Shard.Exact

/-!
# Many stores and one

Without deadlines a store is a dictionary, and the stores of the workers split the
dictionary of a single store by the owners of its keys (`Splits`). A command that
names one key is executed where the key is, so it acts and answers as on the
single store. `MGET` and `KEYS` are executed on the default worker, which sees only
what it owns.
-/

namespace LiteStore
set_option autoImplicit false
open Py MemoryStore

/-! ## Commands and keys -/

/-- The command brings no deadline and deletes no more than one key. -/
def Keywise (request : CommandRequest) : Prop :=
  request.command ≠ .EXPIRE ∧ request.command ≠ .FLUSHALL

/-- What a keywise command does to the value of a key. -/
def keyEffect (request : CommandRequest) (k : String) (old : Option String) : Option String :=
  match request.command, request.args with
  | .SET, [key, value] => if k = key then some value else old
  | .DEL, [key] => if k = key then none else old
  | _, _ => old

theorem dataCommand_get? {request : CommandRequest} (keywise : Keywise request)
    (d : Dict String String) (k : String) :
    (dataCommand request d).2.get? k = keyEffect request k (d.get? k) := by
  obtain ⟨command, args, i, j⟩ := request
  cases command
  case SET =>
    rcases args with _ | ⟨key, _ | ⟨value, _ | ⟨more, rest⟩⟩⟩
    case cons.cons.nil => exact Dict.get?_set d key k value
    all_goals rfl
  case DEL =>
    rcases args with _ | ⟨key, _ | ⟨more, rest⟩⟩
    case cons.nil => exact Dict.get?_erase d key k
    all_goals rfl
  case EXPIRE => exact absurd rfl keywise.1
  case FLUSHALL => exact absurd rfl keywise.2
  case KEYS => rw [dataCommand_keys]; rfl
  all_goals rcases args with _ | ⟨key, _ | ⟨value, rest⟩⟩ <;> rfl

/-- A command leaves every key but the one it is routed by. -/
theorem keyEffect_other {request : CommandRequest} {k : String}
    (other : extractKeyFromRequest request ≠ some k) (old : Option String) :
    keyEffect request k old = old := by
  obtain ⟨command, args, i, j⟩ := request
  have ne {key : String} (h : some key ≠ some k) : k ≠ key := fun same => h (congrArg some same.symm)
  cases command
  case SET =>
    rcases args with _ | ⟨key, _ | ⟨value, _ | ⟨more, rest⟩⟩⟩
    case cons.cons.nil => exact if_neg (ne other)
    all_goals rfl
  case DEL =>
    rcases args with _ | ⟨key, _ | ⟨more, rest⟩⟩
    case cons.nil => exact if_neg (ne other)
    all_goals rfl
  all_goals rcases args with _ | ⟨key, _ | ⟨value, rest⟩⟩ <;> rfl

/-- A command that is routed by a key answers by the value of that key. -/
theorem dataCommand_answer {request : CommandRequest} (keywise : Keywise request) {key : String}
    (routed : extractKeyFromRequest request = some key) {d e : Dict String String}
    (same : e.get? key = d.get? key) : (dataCommand request e).1 = (dataCommand request d).1 := by
  have held : e.contains key = d.contains key := congrArg Option.isSome same
  obtain ⟨command, args, i, j⟩ := request
  cases command
  case EXPIRE => exact absurd rfl keywise.1
  case SET =>
    rcases args with _ | ⟨k, _ | ⟨value, _ | ⟨more, rest⟩⟩⟩ <;> rfl
  case GET =>
    rcases args with _ | ⟨k, _ | ⟨more, rest⟩⟩ <;> cases routed
    · exact congrArg (valueResponse ⟨.GET, [key], i, j⟩) same
    · rfl
  case DEL =>
    rcases args with _ | ⟨k, _ | ⟨more, rest⟩⟩ <;> cases routed
    · simp only [dataCommand, held]
    · rfl
  case TTL =>
    rcases args with _ | ⟨k, _ | ⟨more, rest⟩⟩ <;> cases routed
    · simp only [dataCommand, held]
    · rfl
  all_goals cases routed

/-! ## One partition and the whole -/

/-- The answers of a request are the same; those of `KEYS` up to the order of their entries. -/
def SameAnswer (request : CommandRequest) (r r' : CommandResponse) : Prop :=
  if request.command = .KEYS then
    { r with values := [] } = { r' with values := [] } ∧ r.values.Perm r'.values
  else r = r'

instance (request : CommandRequest) (r r' : CommandResponse) : Decidable (SameAnswer request r r') := by
  unfold SameAnswer
  infer_instance

section Partition

variable (hash : String → Nat) (router : DeterministicHashRouter)

/-- The worker that owns a key. -/
def DeterministicHashRouter.owner (key : String) : String := (router.routeKey hash key).workerId

/-- The default worker owns what a multi-key command looks for: the stored keys among those of an
`MGET`, and the stored keys that match the pattern of a `KEYS`. -/
def DefaultOwns (request : CommandRequest) (d : Dict String String) : Prop :=
  match request.command with
  | .MGET => ∀ k ∈ request.args, d.contains k = true → router.owner hash k = router.defaultWorker
  | .KEYS => request.args.length ≤ 1 → ∀ k ∈ d.keys, fnmatch k (request.args.headD "*") = true →
      router.owner hash k = router.defaultWorker
  | _ => True

instance (request : CommandRequest) (d : Dict String String) :
    Decidable (DefaultOwns hash router request d) := by
  unfold DefaultOwns
  split <;> infer_instance

/-- The part of a dictionary that a worker owns. -/
def Part (id : String) (e d : Dict String String) : Prop :=
  ∀ k, e.get? k = if router.owner hash k = id then d.get? k else none

variable {hash router}

theorem Part.keys_perm {id : String} {e d : Dict String String} (part : Part hash router id e d)
    (p : String → Bool) : (e.keys.filter p).Perm (d.keys.filter p) ↔
      ∀ k ∈ d.keys, p k = true → router.owner hash k = id := by
  rw [List.perm_ext_iff_of_nodup (e.keys_nodup.filter p) (d.keys_nodup.filter p)]
  simp only [List.mem_filter, Dict.mem_keys_isSome, part _]
  constructor
  · intro all k held fits
    by_contra other
    have found := ((all k).mpr ⟨held, fits⟩).1
    rw [if_neg other] at found
    cases found
  · intro owned k
    split
    · exact Iff.rfl
    · rename_i other
      exact ⟨fun h => absurd h.1 (by simp), fun h => absurd (owned k h.1 h.2) other⟩

theorem Part.lookups_eq {id : String} {e d : Dict String String} (part : Part hash router id e d)
    (keys : List String) : keys.map e.get? = keys.map d.get? ↔
      ∀ k ∈ keys, d.contains k = true → router.owner hash k = id := by
  rw [List.map_inj_left]
  refine forall₂_congr fun k _ => ?_
  rw [part k, Dict.contains]
  by_cases own : router.owner hash k = id
  · simp [own]
  · cases d.get? k <;> simp [own]

/-- **One command** answers alike on the part of the worker it is routed to and on the whole if
and only if the default worker owns what it looks for. -/
theorem Part.same_answer {request : CommandRequest} (keywise : Keywise request)
    {e d : Dict String String} (part : Part hash router (router.routeRequest hash request).workerId e d) :
    SameAnswer request (dataCommand request e).1 (dataCommand request d).1 ↔
      DefaultOwns hash router request d := by
  unfold DeterministicHashRouter.routeRequest at part
  cases routed : extractKeyFromRequest request with
  | some key =>
    rw [routed] at part
    have same : e.get? key = d.get? key := (part key).trans (if_pos rfl)
    have equal := dataCommand_answer keywise routed same
    obtain ⟨command, args, i, j⟩ := request
    cases command <;> first
      | cases routed
      | simp [SameAnswer, DefaultOwns, equal]
  | none =>
    rw [routed] at part
    obtain ⟨command, args, i, j⟩ := request
    cases command
    case MGET =>
      simp only [SameAnswer, DefaultOwns, reduceCtorEq, if_false]
      rcases args with _ | ⟨key, keys⟩
      · simp [dataCommand]
      · have answers (d : Dict String String) : (dataCommand ⟨.MGET, key :: keys, i, j⟩ d).1 =
          arrayResponse ⟨.MGET, key :: keys, i, j⟩ ((key :: keys).map d.get?) := rfl
        rw [answers, answers, arrayResponse, arrayResponse]
        simp only [CommandResponse.mk.injEq, true_and]
        exact part.lookups_eq (key :: keys)
    case KEYS =>
      simp only [SameAnswer, DefaultOwns, if_true]
      by_cases many : args.length > 1
      · simp only [dataCommand, if_pos many]
        exact ⟨fun _ few => by omega, fun _ => ⟨trivial, List.Perm.refl _⟩⟩
      · have answers (d : Dict String String) : (dataCommand ⟨.KEYS, args, i, j⟩ d).1 =
            arrayResponse ⟨.KEYS, args, i, j⟩
              ((d.keys.filter fun k => fnmatch k (args.headD "*")).map some) := by
          simp only [dataCommand, if_neg many]
        rw [answers, answers]
        have few : args.length ≤ 1 := by omega
        simp only [arrayResponse, true_and, few, true_implies,
          List.map_perm_map_iff (Option.some_injective _)]
        exact part.keys_perm _
    case EXPIRE => exact absurd rfl keywise.1
    case FLUSHALL => exact absurd rfl keywise.2
    case PING =>
      simp only [SameAnswer, DefaultOwns, reduceCtorEq, if_false, iff_true]
      rcases args with _ | ⟨key, rest⟩ <;> rfl
    all_goals
      rcases args with _ | ⟨key, rest⟩
      · simp [SameAnswer, DefaultOwns, dataCommand]
      · cases routed

/-- A command on the part of the worker it is routed to acts as on the whole. -/
theorem Part.acted {request : CommandRequest} (keywise : Keywise request) {e d : Dict String String}
    (part : Part hash router (router.routeRequest hash request).workerId e d) :
    Part hash router (router.routeRequest hash request).workerId (dataCommand request e).2
      (dataCommand request d).2 := by
  intro k
  rw [dataCommand_get? keywise, dataCommand_get? keywise, part k]
  split
  · rfl
  · rename_i other
    refine keyEffect_other (fun routed => other ?_) none
    simp only [DeterministicHashRouter.routeRequest, routed]
    rfl

/-- A command leaves the parts of the other workers as they are. -/
theorem Part.left {request : CommandRequest} (keywise : Keywise request) {id : String}
    (other : id ≠ (router.routeRequest hash request).workerId) {e d : Dict String String}
    (part : Part hash router id e d) : Part hash router id e (dataCommand request d).2 := by
  intro k
  rw [dataCommand_get? keywise, part k]
  split
  · rename_i own
    refine (keyEffect_other (fun routed => other ?_) _).symm
    simp only [DeterministicHashRouter.routeRequest, routed]
    exact own.symm
  · rfl

end Partition

/-! ## The runtime and one store -/

/-- A request and the readings it meets on its worker and on the single store. -/
structure Routed where
  request : CommandRequest
  clock : Clock ℚ
  single : Clock ℚ

namespace LiteStoreRuntime

variable (hash : String → Nat)

/-- The workers as one machine. -/
def sharded : Machine (LiteStoreRuntime ℚ) Routed CommandResponse :=
  ⟨fun rt a => Id.run (rt.executeRouted hash a.clock a.request)⟩

/-- One store. -/
def oneStore : Machine (MemoryStore ℚ) Routed CommandResponse :=
  ⟨fun s a => Id.run (executeCommand a.request s a.single)⟩

/-- The stores of the workers split the single store. -/
structure Splits (router : DeterministicHashRouter) (rt : LiteStoreRuntime ℚ) (s : MemoryStore ℚ) :
    Prop where
  routes : rt.router = router
  plain : s.Plain
  parts : ∀ id w, rt.workers.get? id = some w → w.store.Plain ∧ Part hash router id w.store.data s.data

variable {hash} {router : DeterministicHashRouter} {rt : LiteStoreRuntime ℚ} {s : MemoryStore ℚ}

/-- An execution on a store without deadlines is the command on its dictionary. -/
theorem execute_plain {w : StoreWorker ℚ} (h : w.store.Plain) (clock : Clock ℚ)
    {request : CommandRequest} (keywise : Keywise request) :
    let r := Id.run (w.execute clock request)
    r.1 = (dataCommand request w.store.data).1 ∧ r.2.store.data = (dataCommand request w.store.data).2 ∧
      r.2.store.Plain := by
  obtain ⟨response, data, plain⟩ := executeCommand_plain (h.pass (clock 0)) request (clock.drop 1)
  rw [h.pass_data] at response data
  rw [StoreWorker.execute_exact]
  exact ⟨response, data, plain keywise.1⟩

/-- The worker that is chosen has its part. -/
theorem Splits.chosen (splits : Splits hash router rt s) (request : CommandRequest) :
    (rt.chosen hash request).store.Plain ∧
      Part hash router (router.routeRequest hash request).workerId (rt.chosen hash request).store.data
        s.data := by
  obtain ⟨rfl, _, parts⟩ := splits
  exact parts _ _ (get?_worker rt (rt.router.routeRequest_mem hash request))

theorem Splits.step (splits : Splits hash router rt s) {a : Routed} (keywise : Keywise a.request) :
    Splits hash router ((sharded hash).step rt a).2 (oneStore.step s a).2 := by
  obtain ⟨_, data, plain⟩ := executeCommand_plain splits.plain a.request a.single
  refine ⟨splits.routes, plain keywise.1, fun id w found => ?_⟩
  have found : (Id.run (rt.executeRouted hash a.clock a.request)).2.workers.get? id = some w := found
  have data : (oneStore.step s a).2.data = (dataCommand a.request s.data).2 := data
  rw [executeRouted_workers, splits.routes] at found
  rw [data]
  split at found
  · rename_i here
    cases found
    obtain ⟨plain', part⟩ := splits.chosen a.request
    obtain ⟨_, data', plain'⟩ := execute_plain plain' a.clock keywise
    refine ⟨plain', ?_⟩
    rw [data', here]
    exact part.acted keywise
  · rename_i other
    obtain ⟨plain', part⟩ := splits.parts id w found
    exact ⟨plain', part.left keywise other⟩

theorem Splits.answer (splits : Splits hash router rt s) {a : Routed} (keywise : Keywise a.request) :
    SameAnswer a.request ((sharded hash).step rt a).1 (oneStore.step s a).1 ↔
      DefaultOwns hash router a.request s.data := by
  obtain ⟨plain, part⟩ := splits.chosen a.request
  have routed : (sharded hash).step rt a = Id.run (rt.executeRouted hash a.clock a.request) := rfl
  have worker := (execute_plain plain a.clock keywise).1
  have single : (oneStore.step s a).1 = (dataCommand a.request s.data).1 :=
    (executeCommand_plain splits.plain a.request a.single).1
  rw [routed, executeRouted_exact, worker, single]
  exact part.same_answer keywise

variable (hash) in
theorem create_splits (workerCount : Nat) (positive : 0 < workerCount) (file : List Char) :
    Splits hash (create (τ := ℚ) workerCount positive file).router (create workerCount positive file)
      (fresh TimingWheel.default) := by
  refine ⟨rfl, flushed_plain, fun id w found => ?_⟩
  rw [freshWorkers_store _ found]
  exact ⟨flushed_plain, fun k => by split <;> rfl⟩

/-- **Many stores and one.** For every number of workers and every hash function: a run of requests
without `EXPIRE` and `FLUSHALL` answers on the workers as on one store if and only if the default
worker owns what each `MGET` and each `KEYS` looks for. -/
theorem sharded_alike_iff (hash : String → Nat) (workerCount : Nat) (positive : 0 < workerCount)
    (file : List Char) (requests : List Routed) (keywise : ∀ a ∈ requests, Keywise a.request) :
    let rt : LiteStoreRuntime ℚ := create workerCount positive file
    Machine.Alike (fun a => SameAnswer a.request) (sharded hash) oneStore rt
        (fresh TimingWheel.default) requests ↔
      oneStore.Along (fun s a => DefaultOwns hash rt.router a.request s.data)
        (fresh TimingWheel.default) requests :=
  Machine.alike_iff (fun _ _ _ splits keywise => splits.step keywise)
    (fun _ _ _ splits keywise => splits.answer keywise)
    (create_splits hash workerCount positive file) keywise

/-- A request at clocks that stand still. -/
def routedAt (t : ℚ) (command : CommandName) (args : List String) : Routed :=
  ⟨{ command := command, args := args }, Clock.still t, Clock.still t⟩

/-- Both keys are owned by the first of two workers. -/
theorem default_keys_alike :
    Machine.Alike (fun a => SameAnswer a.request) (sharded Sha256.leading) oneStore
      (create 2 (by decide) []) (fresh TimingWheel.default)
      [routedAt 1 .SET ["a", "1"], routedAt 2 .SET ["b", "2"], routedAt 3 .MGET ["a", "b", "d"],
       routedAt 4 .KEYS []] := by
  refine (sharded_alike_iff Sha256.leading 2 (by decide) []
    [routedAt 1 .SET ["a", "1"], routedAt 2 .SET ["b", "2"], routedAt 3 .MGET ["a", "b", "d"],
     routedAt 4 .KEYS []] ?_).mpr (by decide +kernel)
  simp [routedAt, Keywise]

/-- An `MGET` of a key that the second worker owns does not find it. -/
theorem second_worker_unread :
    ¬ ∀ (hash : String → Nat) (workerCount : Nat) (positive : 0 < workerCount) (file : List Char)
      (requests : List Routed),
      (∀ a ∈ requests, a.request.command ∈ [.SET, .GET, .DEL, .MGET, .KEYS] ∧ a.request.Accepted) →
      Machine.Alike (fun a => SameAnswer a.request) (sharded hash) oneStore
        (create workerCount positive file) (fresh TimingWheel.default) requests := by
  intro claim
  obtain ⟨_, same, _⟩ := claim Sha256.leading 2 (by decide) []
    [routedAt 1 .SET ["d", "v"], routedAt 2 .MGET ["d"]] (by simp [routedAt, CommandRequest.Accepted, CommandName.TakesArgs, CommandName.TakesWords])
  revert same
  decide +kernel

end LiteStoreRuntime
end LiteStore
