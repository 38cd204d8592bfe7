import LiteStore.Commands.Exact
import LiteStore.Shard.Reshard

/-!
# Every key with its owner

Only a `SET` brings a key into a store, and it is routed by that key. So whatever the requests are, and
whether their appends succeed or not, a worker holds no key but its own (`Owned`): the snapshots of the
workers have no key in common, and a refresh puts them together without losing one
(`refresh_aggregated`).
-/

namespace LiteStore
set_option autoImplicit false
open Py MemoryStore

/-! ## Commands bring in their own keys -/

/-- The key that a command sets is the one it is routed by. -/
theorem commandCalls_set {request : CommandRequest} {clock : Clock ℚ} {c : StoreCall}
    (made : c ∈ commandCalls request clock) {k v : String} (op : c.op = .set k v) :
    extractKeyFromRequest request = some k := by
  obtain ⟨command, args, _, _⟩ := request
  cases command
  case SET =>
    rcases args with _ | ⟨key, _ | ⟨value, _ | ⟨more, rest⟩⟩⟩ <;> simp [commandCalls] at made
    subst made
    cases op
    rfl
  case MGET =>
    obtain ⟨key, n, rfl⟩ := mem_getCalls made
    cases op
  case EXPIRE =>
    rcases args with _ | ⟨key, _ | ⟨value, _ | ⟨more, rest⟩⟩⟩ <;> simp only [commandCalls, List.not_mem_nil] at made
    split at made
    · cases made
    · rw [List.mem_singleton.mp made] at op
      cases op
  all_goals
    rcases args with _ | ⟨key, _ | ⟨value, rest⟩⟩ <;> simp [commandCalls] at made
  all_goals
    subst made
    cases op

/-- A command that is not routed by a key does not bring it in. -/
theorem executeCommand_data_sub {s : MemoryStore ℚ} (h : s.Valid) {request : CommandRequest} {k v : String}
    (other : extractKeyFromRequest request ≠ some k) {clock : Clock ℚ}
    (found : (Id.run (executeCommand request s clock)).2.data.get? k = some v) : ∃ v, s.data.get? k = some v := by
  rw [executeCommand_state] at found
  by_contra missing
  have absent : s.data.get? k = none := Option.eq_none_iff_forall_ne_some.mpr fun v held => missing ⟨v, held⟩
  rw [absent_until_set h absent fun c made _ op => other (commandCalls_set made op)] at found
  cases found

namespace LiteStoreRuntime

variable (hash : String → Nat) {rt : LiteStoreRuntime ℚ}

/-! ## The invariant -/

/-- The store is valid and holds no key that another worker owns. -/
def HoldsOwn (router : DeterministicHashRouter) (id : String) (s : MemoryStore ℚ) : Prop :=
  s.Valid ∧ ∀ k v, s.data.get? k = some v → router.owner hash k = id

/-- So are all stores. -/
def Owned (rt : LiteStoreRuntime ℚ) : Prop :=
  ∀ id w, rt.workers.get? id = some w → HoldsOwn hash rt.router id w.store

variable {hash}

theorem HoldsOwn.pass {router : DeterministicHashRouter} {id : String} {s : MemoryStore ℚ}
    (h : HoldsOwn hash router id s) (t : ℚ) : HoldsOwn hash router id (s.pass t) :=
  ⟨pass_valid h.1 t, fun k v found => h.2 k v (pass_data_sub h.1 found)⟩

theorem owner_known (rt : LiteStoreRuntime ℚ) (k : String) : rt.router.owner hash k ∈ rt.router.workerIds :=
  List.get_mem rt.router.workerIds _

/-- A stored key is with its owner, and with no other worker. -/
theorem Owned.ownsKeys (h : rt.Owned hash) : rt.OwnsKeys hash := by
  rintro k ⟨id₀, w₀, hosted₀, stored⟩ id w hosted
  obtain ⟨v, found⟩ := Dict.contains_iff.mp stored
  have own := (h id₀ w₀ hosted₀).2 k v found
  constructor
  · intro held
    obtain ⟨v, found⟩ := Dict.contains_iff.mp held
    exact ((h id w hosted).2 k v found).symm
  · rintro rfl
    have same : (rt.router.routeKey hash k).workerId = id₀ := own
    rw [same] at hosted
    obtain rfl : w = w₀ := Option.some.inj (hosted.symm.trans hosted₀)
    exact stored

theorem Owned.frame (h : rt.Owned hash) {rt' : LiteStoreRuntime ℚ} (routes : rt'.router = rt.router)
    (workers : rt'.workers = rt.workers) : rt'.Owned hash := by
  intro id w found
  rw [workers] at found
  rw [routes]
  exact h id w found

variable (hash) in
theorem create_owned (workerCount : Nat) (positive : 0 < workerCount) (file : List Char) :
    (create workerCount positive file).Owned hash := by
  intro id w found
  rw [freshWorkers_store _ found]
  exact ⟨flushed_plain.toValid, fun _ _ held => by cases held⟩

theorem Owned.executeRouted (h : rt.Owned hash) (clock : Clock ℚ) (request : CommandRequest) :
    (Id.run (rt.executeRouted hash clock request)).2.Owned hash := by
  intro id w found
  rw [executeRouted_workers] at found
  rw [(executeRouted_frame hash rt clock request).1]
  split at found
  · rename_i here
    cases found
    have before := (h _ _ (get?_worker rt (rt.router.routeRequest_mem hash request))).pass (clock 0)
    rw [StoreWorker.execute_exact]
    refine ⟨executeCommand_valid before.1 request (clock.drop 1), fun k v found => ?_⟩
    by_cases routed : extractKeyFromRequest request = some k
    · rw [here, DeterministicHashRouter.routeRequest, routed]
      rfl
    · obtain ⟨v, held⟩ := executeCommand_data_sub before.1 routed found
      rw [here]
      exact before.2 k v held
  · exact h id w found

theorem Owned.dispatchRequest (h : rt.Owned hash) (clock : Clock ℚ) (append : LogOutcome)
    (request : CommandRequest) : (Id.run (rt.dispatchRequest hash clock append request)).2.Owned hash := by
  obtain ⟨workers, routes, _⟩ := dispatchRequest_exact hash rt clock append request
  exact (h.executeRouted clock request).frame routes workers

theorem Owned.refresh (h : rt.Owned hash) (clocks : Nat → Clock ℚ) (aggregated : Dict String String)
    (ids : List String) : (Id.run (rt.refreshMetricsSnapshot clocks aggregated ids)).2.Owned hash := by
  obtain ⟨routes, _, kept⟩ := refresh_workers (P := fun id w => HoldsOwn hash rt.router id w.store)
    (fun _ _ t own => own.pass t) h clocks aggregated ids
  intro id w found
  rw [routes]
  exact kept id w found

theorem Owned.replay (h : rt.Owned hash) (clocks : Nat → Clock ℚ) (records : List PersistRecord) :
    (Id.run (rt.replayPersistence hash clocks records)).Owned hash := by
  induction records generalizing rt clocks with
  | nil => exact h
  | cons record records ih =>
    rw [replayPersistence_cons]
    exact ih (h.executeRouted (clocks 0) record.request) _

variable (hash) in
/-- A start on any log. -/
theorem started_owned (workerCount : Nat) (positive : 0 < workerCount) (file : List Char)
    (clocks : Nat → Clock ℚ) : (started hash workerCount positive file clocks).Owned hash :=
  (create_owned hash workerCount positive file).replay clocks _

/-! ## What is stored -/

/-- The entries of all workers. -/
def stored (rt : LiteStoreRuntime ℚ) : List (String × String) :=
  rt.workers.values.flatMap fun w => w.store.data.entries

theorem mem_stored {k v : String} : (k, v) ∈ rt.stored ↔ rt.Holds k v := by
  simp only [stored, List.mem_flatMap, Dict.values, List.mem_map, Prod.exists, Dict.mem_entries,
    LiteStoreRuntime.Holds]
  constructor
  · rintro ⟨w, ⟨id, _, hosted, rfl⟩, found⟩
    exact ⟨id, _, hosted, found⟩
  · rintro ⟨id, w, hosted, found⟩
    exact ⟨w, ⟨id, w, hosted, rfl⟩, found⟩

/-- No key is stored twice. -/
theorem Owned.stored_nodup (h : rt.Owned hash) : (rt.stored.map Prod.fst).Nodup := by
  rw [stored, List.map_flatMap, Dict.values, List.flatMap_map, List.nodup_flatMap]
  refine ⟨fun entry _ => entry.2.store.data.keys_nodup, ?_⟩
  have distinct := List.pairwise_map.mp rt.workers.nodup
  refine distinct.imp_of_mem fun {a b} here there apart => List.disjoint_left.mpr fun k mine yours => ?_
  have owns {e : String × StoreWorker ℚ} (listed : e ∈ rt.workers.entries) (held : k ∈ e.2.store.data.keys) :
      rt.router.owner hash k = e.1 := by
    obtain ⟨v, found⟩ := Dict.mem_keys.mp held
    exact (h e.1 e.2 (Dict.mem_entries.mp listed)).2 k v found
  exact apart ((owns here mine).symm.trans (owns there yours))

/-! ## The aggregated snapshot -/

variable (hash) in
/-- What the owner of a key holds for it. -/
def owned? (rt : LiteStoreRuntime ℚ) (k : String) : Option String :=
  (rt.workers.get? (rt.router.owner hash k)).bind fun w => w.store.data.get? k

theorem Owned.holds_iff (h : rt.Owned hash) {k v : String} : rt.Holds k v ↔ rt.owned? hash k = some v := by
  rw [owned?, Option.bind_eq_some_iff]
  constructor
  · rintro ⟨id, w, hosted, found⟩
    have own := (h id w hosted).2 k v found
    exact ⟨w, own ▸ hosted, found⟩
  · rintro ⟨w, hosted, found⟩
    exact ⟨_, w, hosted, found⟩

/-- A round of the loop. -/
theorem refresh_cons {id : String} {w : StoreWorker ℚ} (hosted : rt.workers.get? id = some w)
    (clocks : Nat → Clock ℚ) (aggregated : Dict String String) (ids : List String) :
    let w' := { w with store := w.store.pass (clocks 0 0) }
    Id.run (rt.refreshMetricsSnapshot clocks aggregated (id :: ids)) =
      Id.run ((rt.setWorker id w').refreshMetricsSnapshot (fun i => clocks (i + 1))
        (w'.store.data.entries.foldl (fun d e => d.set e.1 e.2) aggregated) ids) := by
  rw [refreshMetricsSnapshot, hosted]
  rfl

theorem setWorker_get? (rt : LiteStoreRuntime ℚ) (id : String) (w : StoreWorker ℚ) (i : String) :
    (rt.setWorker id w).workers.get? i = if i = id then some w else rt.workers.get? i :=
  Dict.get?_set rt.workers id i w

theorem setWorker_router (rt : LiteStoreRuntime ℚ) (id : String) (w : StoreWorker ℚ) :
    (rt.setWorker id w).router = rt.router := rfl

theorem replay_router (clocks : Nat → Clock ℚ) (records : List PersistRecord) :
    (Id.run (rt.replayPersistence hash clocks records)).router = rt.router := by
  induction records generalizing rt clocks with
  | nil => rfl
  | cons record records ih =>
    rw [replayPersistence_cons]
    exact ih _ |>.trans (executeRouted_frame hash rt (clocks 0) record.request).1

theorem refresh_router (rt : LiteStoreRuntime ℚ) (clocks : Nat → Clock ℚ) (aggregated : Dict String String)
    (ids : List String) : (Id.run (rt.refreshMetricsSnapshot clocks aggregated ids)).2.router = rt.router :=
  (refresh_workers (P := fun _ _ => True) (fun _ _ _ _ => trivial) (fun _ _ _ => trivial) clocks aggregated ids).1

theorem Owned.setWorker (h : rt.Owned hash) {id : String} {w : StoreWorker ℚ}
    (own : HoldsOwn hash rt.router id w.store) : (rt.setWorker id w).Owned hash := by
  intro i v found
  rw [setWorker_get?] at found
  split at found
  · rename_i same
    cases found
    rw [same]
    exact own
  · exact h i v found

/-- The loop leaves the workers that it does not come to. -/
theorem refresh_other {id : String} {ids : List String} (other : id ∉ ids) (clocks : Nat → Clock ℚ)
    (aggregated : Dict String String) :
    (Id.run (rt.refreshMetricsSnapshot clocks aggregated ids)).2.workers.get? id = rt.workers.get? id := by
  induction ids generalizing rt clocks aggregated with
  | nil => rfl
  | cons i ids ih =>
    obtain ⟨apart, rest⟩ := not_or.mp (List.mem_cons.not.mp other)
    cases hosted : rt.workers.get? i with
    | none =>
      rw [refreshMetricsSnapshot, hosted]
      exact ih rest clocks aggregated
    | some w => rw [refresh_cons hosted, ih rest, setWorker_get?, if_neg apart]

/-- The loop over some workers puts together what they hold for their keys. -/
theorem Owned.refresh_get? (h : rt.Owned hash) {ids : List String} (distinct : ids.Nodup)
    (hosted : ∀ id ∈ ids, ∃ w, rt.workers.get? id = some w) (clocks : Nat → Clock ℚ)
    {aggregated : Dict String String} (new : ∀ k, rt.router.owner hash k ∈ ids → aggregated.get? k = none)
    (k : String) :
    (Id.run (rt.refreshMetricsSnapshot clocks aggregated ids)).1.get? k =
      if rt.router.owner hash k ∈ ids then
        (Id.run (rt.refreshMetricsSnapshot clocks aggregated ids)).2.owned? hash k
      else aggregated.get? k := by
  induction ids generalizing rt clocks aggregated with
  | nil => rfl
  | cons id ids ih =>
    obtain ⟨fresh, distinct⟩ := List.nodup_cons.mp distinct
    obtain ⟨w, found⟩ := hosted id List.mem_cons_self
    have own : HoldsOwn hash rt.router id (w.store.pass (clocks 0 0)) := (h id w found).pass _
    -- The worker holds nothing of another's keys.
    have apart (k : String) (other : rt.router.owner hash k ≠ id) :
        (w.store.pass (clocks 0 0)).data.get? k = none :=
      Option.eq_none_iff_forall_ne_some.mpr fun v held => other (own.2 k v held)
    have owned := h.setWorker (w := { w with store := w.store.pass (clocks 0 0) }) own
    rw [refresh_cons found, ih owned distinct (fun i m => ?_) _ fun k m => ?_]
    · simp only [setWorker_router, Dict.get?_update, List.mem_cons]
      by_cases later : rt.router.owner hash k ∈ ids
      · rw [if_pos later, if_pos (.inr later)]
      · by_cases here : rt.router.owner hash k = id
        · rw [if_neg later, if_pos (.inl here), new k (here ▸ List.mem_cons_self), Option.or_none, owned?,
            refresh_router, setWorker_router, here, refresh_other fresh, setWorker_get?, if_pos rfl]
          rfl
        · rw [if_neg later, if_neg (not_or.mpr ⟨here, later⟩), apart k here, Option.none_or]
    · obtain ⟨v, before⟩ := hosted i (List.mem_cons_of_mem _ m)
      rw [setWorker_get?]
      split
      · exact ⟨_, rfl⟩
      · exact ⟨v, before⟩
    · have other : rt.router.owner hash k ≠ id := fun same => fresh (same ▸ m)
      rw [Dict.get?_update, apart k other, new k (List.mem_cons_of_mem _ m)]
      rfl

/-- **A refresh** aggregates the entries of all workers, each once. -/
theorem Owned.refresh_aggregated (h : rt.Owned hash) (clocks : Nat → Clock ℚ) :
    let r := Id.run (rt.refreshMetricsSnapshot clocks Dict.empty rt.workers.keys)
    r.1.entries.Perm r.2.stored := by
  intro r
  have owned : r.2.Owned hash := h.refresh clocks _ _
  rw [List.perm_ext_iff_of_nodup (List.Nodup.of_map _ r.1.nodup) (List.Nodup.of_map _ owned.stored_nodup)]
  rintro ⟨k, v⟩
  have listed : rt.router.owner hash k ∈ rt.workers.keys :=
    Dict.mem_keys_isSome.mpr (rt.hosted _ (owner_known rt k))
  have value : r.1.get? k = r.2.owned? hash k := by
    rw [h.refresh_get? rt.workers.keys_nodup (fun id m => Dict.mem_keys.mp m) clocks
      (fun _ _ => Dict.get?_empty _) k, if_pos listed]
  rw [Dict.mem_entries, mem_stored, owned.holds_iff, value]

end LiteStoreRuntime
end LiteStore
