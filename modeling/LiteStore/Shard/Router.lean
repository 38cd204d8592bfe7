import LiteStore.Py.Sha256
import LiteStore.Types

/-!
# Routing

`DeterministicHashRouter` of `src/router.py`, with any hash function in place of
the leading bytes of SHA-256, which are `Py.Sha256.leading`.
-/

namespace LiteStore
set_option autoImplicit false

/-- The state of a router; an empty list of workers is a `ValueError`. -/
structure DeterministicHashRouter where
  workerIds : List String
  nonempty : workerIds ≠ []

/-- `_extract_key_from_request`. -/
def extractKeyFromRequest (request : CommandRequest) : Option String :=
  if request.command ∈ [.SET, .GET, .DEL, .EXPIRE, .TTL] then request.args.head? else none

/-- `_stable_partition_for_key`. -/
def stablePartitionForKey (hash : String → Nat) (key : String) (partitionCount : Nat) : Nat :=
  hash key % partitionCount

namespace DeterministicHashRouter

variable (hash : String → Nat) (router : DeterministicHashRouter)

theorem partition_lt (key : String) :
    stablePartitionForKey hash key router.workerIds.length < router.workerIds.length :=
  Nat.mod_lt _ (List.length_pos_iff.mpr router.nonempty)

/-- `_default_worker`. -/
def defaultWorker : String := router.workerIds.head router.nonempty

/-- `route_key`. -/
def routeKey (key : String) : KeyRoute where
  partitionId := stablePartitionForKey hash key router.workerIds.length
  workerId := router.workerIds.get ⟨_, router.partition_lt hash key⟩

/-- `route_request`. -/
def routeRequest (request : CommandRequest) : KeyRoute :=
  match extractKeyFromRequest request with
  | none => ⟨0, router.defaultWorker⟩
  | some key => router.routeKey hash key

/-- Every request is routed to one of the workers. -/
theorem routeRequest_mem (request : CommandRequest) :
    (router.routeRequest hash request).workerId ∈ router.workerIds := by
  unfold routeRequest
  split
  · exact List.head_mem router.nonempty
  · exact List.get_mem router.workerIds _

end DeterministicHashRouter
end LiteStore
