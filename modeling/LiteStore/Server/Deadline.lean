import LiteStore.Server.Stores

/-!
# Deadlines over the wire

A key that one client sets and another gives a deadline: whoever reads it before the deadline gets the value,
and whoever reads it a turn of the wheel after the deadline gets nothing, if the clock does not go back and no
other line writes the key. The argument is about the specification of a store (`laxStore`), which the store of
the key's owner refines.
-/

namespace LiteStore
set_option autoImplicit false
open Py MemoryStore

/-! ## The specification -/

namespace MemoryStore

variable {slack d : ℚ} {k v : String} {m m' : ExpiringMap String String ℚ} {c : StoreCall} {result : StoreResult}
  {s : MemoryStore ℚ}

/-- All its readings of the clock are before this time. -/
def Before (d : ℚ) (c : StoreCall) : Prop :=
  c.start < d ∧ ((∀ now, c.op ≠ .processExpirations now) → ∀ i, c.clock i < d)

/-- All that a call does to a key that it does not write: it may drop it at a reading after its deadline. -/
theorem allowed_other (leaves : Leaves k c) (allowed : (laxStore slack).allows m c result m') :
    m'.get? k = m.get? k ∨ m'.get? k = none ∧ ∃ v d, m.get? k = some (v, some d) ∧ ¬ Before d c := by
  obtain ⟨passed, expires, acts⟩ := allowed
  have first {x : Option (String × Option ℚ)} (same : x = passed.get? k) :
      x = m.get? k ∨ x = none ∧ ∃ v d, m.get? k = some (v, some d) ∧ ¬ Before d c := by
    subst same
    exact (expires.same_or k).imp id fun ⟨gone, v, d, timed, past⟩ =>
      ⟨gone, v, d, timed, fun early => absurd early.1 (not_lt.mpr past)⟩
  have second {x : Option (String × Option ℚ)} {v : String} {d : ℚ} (gone : x = none)
      (timed : passed.get? k = some (v, some d)) (reads : ∀ now, c.op ≠ .processExpirations now) {i : Nat}
      (past : d ≤ c.clock i) : x = m.get? k ∨ x = none ∧ ∃ v d, m.get? k = some (v, some d) ∧ ¬ Before d c := by
    rcases expires.same_or k with same | ⟨dropped, _⟩
    · exact .inr ⟨gone, v, d, same ▸ timed, fun early => absurd (early.2 reads i) (not_lt.mpr past)⟩
    · rw [dropped] at timed
      cases timed
  obtain ⟨unset, undeleted, untimed, unflushed⟩ := leaves
  obtain ⟨op, clock⟩ := c
  cases op with
  | set key value =>
    have apart : k ≠ key := by rintro rfl; exact unset value rfl
    obtain ⟨_, rfl⟩ := acts
    exact first (if_neg apart)
  | delete key =>
    have apart : k ≠ key := by rintro rfl; exact undeleted rfl
    obtain ⟨_, rfl⟩ := acts
    exact first (if_neg apart)
  | expire key n =>
    have apart : k ≠ key := by rintro rfl; exact untimed n rfl
    simp only [Acts] at acts
    split at acts
    · obtain ⟨_, acts⟩ := acts
      split at acts
      · obtain ⟨passed', again, rfl⟩ := acts
        have erased : (passed'.erase key).get? k = passed'.get? k := if_neg apart
        rcases again.same_or k with same | ⟨gone, v, d, timed, past⟩
        · exact first (erased.trans same)
        · exact second (erased.trans gone) timed (by simp) past
      · subst acts
        exact first (if_neg apart)
    · exact first (congrArg (ExpiringMap.get? · k) acts.2)
  | ttl key =>
    simp only [Acts] at acts
    split at acts
    · exact first (congrArg (ExpiringMap.get? · k) acts.2)
    · exact first (congrArg (ExpiringMap.get? · k) acts.2)
    · rename_i v d timed
      split at acts
      · rename_i late
        obtain ⟨_, passed', again, rfl⟩ := acts
        by_cases same : k = key
        · subst same
          have past : d ≤ clock 1 := by linarith
          exact second (if_pos rfl) timed (by simp) past
        · have erased : (passed'.erase key).get? k = passed'.get? k := if_neg same
          rcases again.same_or k with same | ⟨gone, v, d, timed, past⟩
          · exact first (erased.trans same)
          · exact second (erased.trans gone) timed (by simp) past
      · exact first (congrArg (ExpiringMap.get? · k) acts.2)
  | flush => exact absurd rfl unflushed
  | get key => exact first (congrArg (ExpiringMap.get? · k) acts.2)
  | keys pattern => exact first (congrArg (ExpiringMap.get? · k) acts.1)
  | snapshot => exact first (congrArg (ExpiringMap.get? · k) acts.1)
  | processExpirations now => exact first (congrArg (ExpiringMap.get? · k) acts.1)

/-- Before its deadline the key stays. -/
theorem allowed_kept (leaves : Leaves k c) (allowed : (laxStore slack).allows m c result m') {d? : Option ℚ}
    (early : ∀ d ∈ d?, Before d c) (held : m.get? k = some (v, d?)) :
    m'.get? k = some (v, d?) := by
  rcases allowed_other leaves allowed with same | ⟨_, v', d, timed, past⟩
  · exact same.trans held
  · obtain ⟨rfl, rfl⟩ : v = v' ∧ d? = some d := by simpa [held] using timed
    exact absurd (early d rfl) past

/-- The key has this deadline, or is gone. -/
def Doomed (k : String) (d : ℚ) (m : ExpiringMap String String ℚ) : Prop :=
  m.get? k = none ∨ ∃ v, m.get? k = some (v, some d)

theorem allowed_doomed (leaves : Leaves k c) (allowed : (laxStore slack).allows m c result m')
    (doomed : Doomed k d m) : Doomed k d m' := by
  rcases allowed_other leaves allowed with same | ⟨gone, _⟩
  · exact doomed.imp same.trans fun ⟨v, timed⟩ => ⟨v, same.trans timed⟩
  · exact .inl gone

/-- **Run rule**: what the allowed calls keep of the map, a run of the store keeps. -/
theorem Follows.invariant {calls more : List StoreCall} (default : 512 * (1 / 10) ≤ slack)
    (h : Follows slack (calls ++ more) s s.expiring) {I : ExpiringMap String String ℚ → Prop}
    (keep : ∀ m c result m', c ∈ calls → I m → (laxStore slack).allows m c result m' → I m')
    (start : I s.expiring) : I (machine.after s calls).expiring ∧
      Follows slack more (machine.after s calls) (machine.after s calls).expiring := by
  obtain ⟨m, run, last⟩ := machine.refines (S := laxStore slack) (R := fun l s m => Follows slack (l ++ more) s m)
    (fun _ _ _ _ h => ⟨_, h.step default⟩) h
  obtain rfl : m = (machine.after s calls).expiring := last.same
  exact ⟨run.invariant keep start, last⟩

/-- **A deadline.** After a key has been set and given a deadline, a read before it answers the value, and a
read that is the slack behind it answers nothing. -/
theorem deadline_kept {quiet between more : List StoreCall} {a e g : Clock ℚ} {n : Int}
    (default : 512 * (1 / 10) ≤ slack)
    (h : Follows slack (⟨.set k v, a⟩ :: (quiet ++ ⟨.expire k n, e⟩ :: (between ++ ⟨.get k, g⟩ :: more))) s s.expiring)
    (positive : 0 < n) (quietly : ∀ c ∈ quiet, Leaves k c) (leave : ∀ c ∈ between, Leaves k c) :
    let last := machine.after s (⟨.set k v, a⟩ :: (quiet ++ ⟨.expire k n, e⟩ :: between))
    ((∀ c ∈ between, Before (e 1 + n) c) → g 0 < e 1 + n →
      (last.perform ⟨.get k, g⟩).1 = .value (some v)) ∧
    (e 1 + n + slack ≤ g 0 → (last.perform ⟨.get k, g⟩).1 = .value none) := by
  obtain ⟨⟨passed, _, acts⟩, h⟩ := h.step default
  have written : (s.perform ⟨.set k v, a⟩).2.expiring.get? k = some (v, none) := by
    rw [acts.2]
    exact if_pos rfl
  obtain ⟨untimed, h⟩ := h.invariant (I := fun m => m.get? k = some (v, none)) default
    (fun _ c _ _ listed held allowed => allowed_kept (quietly c listed) allowed (fun _ none => by cases none) held) written
  set before := machine.after (s.perform ⟨.set k v, a⟩).2 quiet with hbefore
  obtain ⟨⟨passed, expires, acts⟩, h⟩ := h.step default
  have timed : (before.perform ⟨.expire k n, e⟩).2.expiring.get? k = some (v, some (e 1 + n)) := by
    have held := expires.kept untimed fun _ none => by cases none
    simp only [Acts, held, Option.isSome_some, if_true, if_neg (not_le.mpr positive)] at acts
    rw [acts.2, ExpiringMap.setDeadline]
    simp only [if_true, held, Option.map_some]
  have reached : machine.after s (⟨.set k v, a⟩ :: (quiet ++ ⟨.expire k n, e⟩ :: between)) =
      machine.after (before.perform ⟨.expire k n, e⟩).2 between := by
    rw [Machine.after_cons, Machine.after_append, Machine.after_cons]
    rfl
  intro last
  have hlast : last = machine.after (before.perform ⟨.expire k n, e⟩).2 between := reached
  rw [hlast]
  constructor
  · intro early soon
    obtain ⟨held, h⟩ := h.invariant (I := fun m => m.get? k = some (v, some (e 1 + n))) default
      (fun _ c _ _ listed held allowed => allowed_kept (leave c listed) allowed
        (fun d same => by obtain rfl := Option.some.inj same; exact early c listed) held) timed
    obtain ⟨⟨passed, expires, answer, _⟩, _⟩ := h.step default
    have kept := expires.kept held fun d same => by obtain rfl := Option.some.inj same; exact soon
    rw [answer, ExpiringMap.value, kept]
    rfl
  · intro late
    obtain ⟨doomed, h⟩ := h.invariant (I := Doomed k (e 1 + n)) default
      (fun _ c _ _ listed doomed allowed => allowed_doomed (leave c listed) allowed doomed) (.inr ⟨v, timed⟩)
    obtain ⟨⟨passed, expires, answer, _⟩, _⟩ := h.step default
    have gone : passed.get? k = none := by
      rcases doomed with absent | ⟨v, held⟩
      · exact expires.absent absent
      · exact expires.gone held late
    rw [answer, ExpiringMap.value, gone]
    rfl

end MemoryStore

/-! ## Requests of one call -/

/-- The request is routed by the key and makes one call. -/
structure CommandRequest.Makes (request : CommandRequest) (k : String) (op : StoreOp) : Prop where
  routed : extractKeyFromRequest request = some k
  calls : ∀ clock, commandCalls request clock = [⟨op, clock⟩]

theorem CommandRequest.Writes.makes {request : CommandRequest} {k v : String} (writes : request.Writes k (some v)) :
    request.Makes k (.set k v) := by
  obtain ⟨command, args, _, _⟩ := request
  rcases writes with ⟨value, rfl, rfl, same⟩ | ⟨_, _, none⟩
  · obtain rfl : v = value := Option.some.inj same
    exact ⟨rfl, fun _ => rfl⟩
  · cases none

theorem CommandRequest.makes_expire {request : CommandRequest} {k secondsRaw : String} {n : Int}
    (expires : request.command = .EXPIRE) (given : request.args = [k, secondsRaw])
    (seconds : parseTtlSeconds secondsRaw = some n) : request.Makes k (.expire k n) := by
  obtain ⟨command, args, _, _⟩ := request
  cases expires
  cases given
  refine ⟨rfl, fun clock => ?_⟩
  simp only [commandCalls, seconds]

theorem CommandRequest.makes_get {request : CommandRequest} {k : String} (command : request.command = .GET)
    (args : request.args = [k]) : request.Makes k (.get k) := by
  obtain ⟨_, _, _, _⟩ := request
  cases command
  cases args
  exact ⟨rfl, fun _ => rfl⟩

/-! ## Jobs and their calls -/

/-- The readings of a line's handler. -/
def Job.clock : Job → Clock ℚ
  | .line _ _ _ _ clock _ _ => clock
  | .refresh clocks => clocks 0

/-- The calls of a command read its clock. -/
theorem commandCalls_clock {request : CommandRequest} {clock : Clock ℚ} :
    ∀ c ∈ commandCalls request clock, c.start = c.clock 0 ∧ ∀ i, ∃ j, c.clock i = clock j := by
  obtain ⟨command, args, _, _⟩ := request
  cases command
  case MGET =>
    intro c m
    obtain ⟨key, n, rfl⟩ := mem_getCalls m
    exact ⟨rfl, fun i => ⟨n + i, rfl⟩⟩
  case EXPIRE =>
    rcases args with _ | ⟨key, _ | ⟨value, _ | ⟨more, rest⟩⟩⟩ <;> try exact List.forall_mem_nil _
    simp only [commandCalls]
    cases parseTtlSeconds value with
    | none => exact List.forall_mem_nil _
    | some seconds => exact List.forall_mem_singleton.mpr ⟨rfl, fun i => ⟨i, rfl⟩⟩
  all_goals
    rcases args with _ | ⟨key, _ | ⟨value, _ | ⟨more, rest⟩⟩⟩ <;> first
      | exact List.forall_mem_nil _
      | exact List.forall_mem_singleton.mpr ⟨rfl, fun i => ⟨i, rfl⟩⟩

namespace Backend

variable {hash : String → Nat} {rowHash : Nat → String → Nat} {b : Backend} {k : String} {id : String}

variable (hash) in
/-- A request that is routed by a key makes its calls on the store of the key's owner. -/
theorem storeCalls_owner {job : Job} {request : CommandRequest} (accepted : job.request = some request)
    (named : extractKeyFromRequest request = some k) :
    storeCalls hash (b.runtime.router.owner hash k) b job =
      ⟨.processExpirations none, job.clock⟩ :: commandCalls request (job.clock.drop 1) := by
  cases job with
  | refresh clocks => cases accepted
  | line i raw connectionId requestId clock append durationSeconds =>
    have parsed : parseCommand (String.ofList (decode raw)) (some requestId) (some connectionId) = .ok request := by
      rw [Job.request] at accepted
      cases outcome : parseCommand (String.ofList (decode raw)) (some requestId) (some connectionId) with
      | error exc => rw [outcome] at accepted; cases accepted
      | ok request' => rw [outcome] at accepted; exact congrArg Except.ok (Option.some.inj accepted)
    have routed : (b.runtime.router.routeRequest hash request).workerId = b.runtime.router.owner hash k := by
      rw [DeterministicHashRouter.routeRequest, named]
      rfl
    rw [storeCalls, parsed]
    exact if_pos routed

/-- The calls of a job are a pass and those of its request, or a snapshot, or none. -/
theorem mem_storeCalls {job : Job} {c : StoreCall} (made : c ∈ storeCalls hash id b job) :
    (∃ request, job.request = some request ∧ c ∈ commandCalls request (job.clock.drop 1)) ∨
      c = ⟨.processExpirations none, job.clock⟩ ∨ ∃ clocks i, job = .refresh clocks ∧ c = ⟨.snapshot, clocks i⟩ := by
  cases job with
  | refresh clocks => exact .inr (.inr ⟨clocks, _, rfl, List.mem_singleton.mp made⟩)
  | line i raw connectionId requestId clock append durationSeconds =>
    rw [storeCalls] at made
    cases parsed : parseCommand (String.ofList (decode raw)) (some requestId) (some connectionId) with
    | error exc =>
      rw [parsed] at made
      cases made
    | ok request =>
      simp only [parsed, LiteStoreRuntime.requestCalls] at made
      split at made
      · rcases List.mem_cons.mp made with rfl | made
        · exact .inr (.inl rfl)
        · exact .inl ⟨request, by rw [Job.request, parsed]; rfl, made⟩
      · cases made

theorem storeCalls_leave {job : Job} (leaves : job.Leaves k) :
    ∀ c ∈ storeCalls hash id b job, MemoryStore.Leaves k c := by
  intro c made
  rcases mem_storeCalls made with ⟨request, accepted, made⟩ | rfl | ⟨clocks, i, rfl, rfl⟩
  · exact (leaves request accepted).calls _ c made
  · simp [MemoryStore.Leaves]
  · simp [MemoryStore.Leaves]

theorem storeCalls_by {job : Job} {lo hi : ℚ} (during : job.During lo hi) :
    ∀ c ∈ storeCalls hash id b job, c.start ≤ hi ∧ ∀ i, c.clock i ≤ hi := by
  intro c made
  rcases mem_storeCalls made with ⟨request, accepted, made⟩ | rfl | ⟨clocks, i, rfl, rfl⟩
  · cases job with
    | refresh clocks => cases accepted
    | line =>
      obtain ⟨start, same⟩ := commandCalls_clock c made
      have by_hi (i : Nat) : c.clock i ≤ hi := by
        obtain ⟨j, at_i⟩ := same i
        rw [at_i]
        exact (during.2 _).2
      exact ⟨start ▸ by_hi 0, by_hi⟩
  · cases job with
    | refresh clocks => exact ⟨(during 0 0).2, fun i => (during 0 i).2⟩
    | line => exact ⟨(during.2 0).2, fun i => (during.2 i).2⟩
  · exact ⟨(during i 0).2, fun j => (during i j).2⟩

/-- What holds of the calls of each job holds of those of a run. -/
theorem collect_storeCalls {P : StoreCall → Prop} {jobs : List Job}
    (each : ∀ job ∈ jobs, ∀ b, ∀ c ∈ storeCalls hash id b job, P c) :
    ∀ c ∈ (serial hash rowHash).collect (storeCalls hash id) b jobs, P c := by
  induction jobs generalizing b with
  | nil => exact List.forall_mem_nil _
  | cons job jobs ih =>
    rw [Machine.collect, List.forall_mem_append]
    exact ⟨each job List.mem_cons_self b, ih fun j m => each j (List.mem_cons_of_mem _ m)⟩

variable (hash) in
/-- No job changes the routes. -/
theorem after_router (sound : b.Sound rowHash) (jobs : List Job) :
    ((serial hash rowHash).after b jobs).runtime.router = b.runtime.router := by
  induction jobs generalizing b with
  | nil => rfl
  | cons job jobs ih =>
    refine (ih (sound.step hash job)).trans ?_
    obtain ⟨observed, counted⟩ := sound.1
    rcases step_runtime hash counted job with ⟨clocks, _, left⟩ | ⟨_, left⟩ |
      ⟨request, clock, append, _, _, _, left⟩ <;> rw [left]
    · exact LiteStoreRuntime.refresh_router b.runtime clocks _ _
    · exact (LiteStoreRuntime.dispatchRequest_exact hash b.runtime clock append request).2.1

/-- The calls of a run on the store of the key's owner, at a job that makes one. -/
theorem collect_owner (sound : b.Sound rowHash) (owns : b.runtime.router.owner hash k = id) (jobs : List Job)
    {job : Job} {request : CommandRequest} (accepted : job.request = some request) {op : StoreOp}
    (makes : request.Makes k op) (more : List Job) :
    (serial hash rowHash).collect (storeCalls hash id) b (jobs ++ job :: more) =
      (serial hash rowHash).collect (storeCalls hash id) b jobs ++ ⟨.processExpirations none, job.clock⟩ ::
        ⟨op, job.clock.drop 1⟩ ::
          (serial hash rowHash).collect (storeCalls hash id) ((serial hash rowHash).after b (jobs ++ [job])) more := by
  have same : ((serial hash rowHash).after b jobs).runtime.router.owner hash k = id := by
    rw [after_router hash sound jobs]
    exact owns
  have made := storeCalls_owner hash (b := (serial hash rowHash).after b jobs) accepted makes.routed
  rw [same, makes.calls] at made
  rw [Machine.collect_append, Machine.collect, made, Machine.after_append]
  rfl

/-- The calls on the store of the key's owner when the key is set, given a deadline and read. -/
theorem timed_calls (sound : b.Sound rowHash) (owns : b.runtime.router.owner hash k = id) (prior : List StoreCall)
    (before quiet between after : List Job) {write expire read : Job} {request expiry query : CommandRequest}
    {v : String} {n : Int} (written : write.request = some request) (sets : request.Makes k (.set k v))
    (timed : expire.request = some expiry) (expires : expiry.Makes k (.expire k n))
    (accepted : read.request = some query) (gets : query.Makes k (.get k))
    (quietly : ∀ job ∈ quiet, job.Leaves k) (leave : ∀ job ∈ between, job.Leaves k) :
    ∃ first quietCalls betweenCalls more,
      prior ++ (serial hash rowHash).collect (storeCalls hash id) b
        (before ++ write :: (quiet ++ expire :: (between ++ read :: after))) =
          first ++ ⟨.set k v, write.clock.drop 1⟩ :: (quietCalls ++ ⟨.expire k n, expire.clock.drop 1⟩ ::
            (betweenCalls ++ ⟨.get k, read.clock.drop 1⟩ :: more)) ∧
      prior ++ (serial hash rowHash).collect (storeCalls hash id) b
        (before ++ write :: (quiet ++ expire :: between)) ++ [⟨.processExpirations none, read.clock⟩] =
          first ++ ⟨.set k v, write.clock.drop 1⟩ :: (quietCalls ++ ⟨.expire k n, expire.clock.drop 1⟩ ::
            betweenCalls) ∧
      (∀ c ∈ quietCalls, MemoryStore.Leaves k c) ∧ (∀ c ∈ betweenCalls, MemoryStore.Leaves k c) ∧
      ∀ hi, (∀ job ∈ between, ∃ lo t, job.During lo t ∧ t ≤ hi) → ∀ c ∈ betweenCalls,
        (c.start ≤ hi ∧ ∀ i, c.clock i ≤ hi) ∨ c = ⟨.processExpirations none, read.clock⟩ := by
  have routes (jobs : List Job) :
      ((serial hash rowHash).after b jobs).runtime.router.owner hash k = id := by
    rw [after_router hash sound jobs]
    exact owns
  have pass_leaves (clock : Clock ℚ) : MemoryStore.Leaves k ⟨.processExpirations none, clock⟩ := by
    simp [MemoryStore.Leaves]
  set b₁ := (serial hash rowHash).after b (before ++ [write]) with h₁
  set b₂ := (serial hash rowHash).after b₁ (quiet ++ [expire]) with h₂
  have sound₁ : b₁.Sound rowHash := sound.after hash _
  have sound₂ : b₂.Sound rowHash := sound₁.after hash _
  have owns₁ : b₁.runtime.router.owner hash k = id := routes _
  have owns₂ : b₂.runtime.router.owner hash k = id := by
    rw [h₂, after_router hash sound₁]
    exact owns₁
  refine ⟨prior ++ ((serial hash rowHash).collect (storeCalls hash id) b before ++
      [⟨.processExpirations none, write.clock⟩]),
    (serial hash rowHash).collect (storeCalls hash id) b₁ quiet ++ [⟨.processExpirations none, expire.clock⟩],
    (serial hash rowHash).collect (storeCalls hash id) b₂ between ++ [⟨.processExpirations none, read.clock⟩],
    (serial hash rowHash).collect (storeCalls hash id) ((serial hash rowHash).after b₂ (between ++ [read])) after,
    ?_, ?_, ?_, ?_, fun hi early c m => ?_⟩
  · rw [collect_owner sound owns before written sets, collect_owner sound₁ owns₁ quiet timed expires,
      collect_owner sound₂ owns₂ between accepted gets]
    simp only [List.append_assoc, List.cons_append, List.nil_append]
  · rw [collect_owner sound owns before written sets, collect_owner sound₁ owns₁ quiet timed expires, ← h₂]
    simp only [List.append_assoc, List.cons_append, List.nil_append]
  · exact List.forall_mem_append.mpr ⟨collect_storeCalls fun job m b => storeCalls_leave (quietly job m),
      List.forall_mem_singleton.mpr (pass_leaves _)⟩
  · exact List.forall_mem_append.mpr ⟨collect_storeCalls fun job m b => storeCalls_leave (leave job m),
      List.forall_mem_singleton.mpr (pass_leaves _)⟩
  · rcases List.mem_append.mp m with m | m
    · refine .inl (collect_storeCalls (P := fun c => c.start ≤ hi ∧ ∀ i, c.clock i ≤ hi)
        (fun job m b c made => ?_) c m)
      obtain ⟨lo, t, during, done⟩ := early job m
      obtain ⟨start, later⟩ := storeCalls_by during c made
      exact ⟨start.trans done, fun i => (later i).trans done⟩
    · exact .inr (List.mem_singleton.mp m)

/-- A read is answered by what its call gets from the owner's store. -/
theorem get_answered (counts : ∃ observed, b.Counted rowHash observed) (owns : b.runtime.router.owner hash k = id)
    {s : MemoryStore ℚ} {calls : List StoreCall} (reaches : b.runtime.Reaches id s calls) {i : Nat} {raw : List UInt8}
    {connectionId requestId : String} {clock : Clock ℚ} {append : LogOutcome} {durationSeconds : ℚ}
    {query : CommandRequest}
    (accepted : (Job.line i raw connectionId requestId clock append durationSeconds).request = some query)
    (command : query.command = .GET) (args : query.args = [k]) {v : Option String}
    (got : ((MemoryStore.machine.after s (calls ++ [⟨.processExpirations none, clock⟩])).perform
      ⟨.get k, clock.drop 1⟩).1 = .value v) :
    ((serial hash rowHash).step b (.line i raw connectionId requestId clock append durationSeconds)).1 =
      some (valueResponse query v) := by
  subst owns
  obtain ⟨observed, counted⟩ := counts
  obtain ⟨w, hosted, store⟩ := reaches
  have routed : (b.runtime.router.routeRequest hash query).workerId = b.runtime.router.owner hash k := by
    rw [DeterministicHashRouter.routeRequest, extractKeyFromRequest, command, args]
    rfl
  have chosen : b.runtime.chosen hash query = w := by
    rw [← routed] at hosted
    have known := LiteStoreRuntime.get?_worker b.runtime (b.runtime.router.routeRequest_mem hash query)
    exact Option.some.inj (known.symm.trans hosted)
  have unlogged (response : CommandResponse) : isPersistedWrite query response = false := by
    simp [isPersistedWrite, mutates, command]
  have value : (Id.run (b.runtime.executeRouted hash clock query)).1 = valueResponse query v := by
    rw [Machine.after_append, ← store] at got
    have got : ((w.store.pass (clock 0)).pass (clock 1)).data.get? k = v := by
      injection got
    rw [LiteStoreRuntime.executeRouted_exact, chosen, StoreWorker.execute_exact, ← got]
    obtain ⟨_, _, _, _⟩ := query
    cases command
    cases args
    rfl
  have step : (serial hash rowHash).step b (.line i raw connectionId requestId clock append durationSeconds) =
    b.processCommandBytes hash rowHash clock append durationSeconds raw connectionId requestId := rfl
  rw [step, processCommandBytes]
  rw [Job.request] at accepted
  cases parsed : parseCommand (String.ofList (decode raw)) (some requestId) (some connectionId) with
  | error exc =>
    rw [parsed] at accepted
    cases accepted
  | ok request =>
    rw [parsed] at accepted
    obtain rfl : request = query := Option.some.inj accepted
    obtain ⟨metrics, observes, _⟩ := counted.observe ⟨request, durationSeconds⟩
    simp only [observes]
    rw [(LiteStoreRuntime.dispatchRequest_exact hash b.runtime clock append request).2.2 (unlogged _), value]

end Backend

/-- The jobs of a first part are over when those of the second begin. -/
theorem Chronological.split {t : ℚ} {jobs more : List Job} (h : Chronological t (jobs ++ more)) :
    ∃ t', t ≤ t' ∧ Chronological t' more ∧ ∀ job ∈ jobs, ∃ lo hi, job.During lo hi ∧ hi ≤ t' := by
  induction jobs generalizing t with
  | nil => exact ⟨t, le_rfl, h, List.forall_mem_nil _⟩
  | cons job jobs ih =>
    obtain ⟨hi, le, during, later⟩ := h
    obtain ⟨t', done, rest, each⟩ := ih later
    exact ⟨t', le.trans done, rest, List.forall_mem_cons.mpr ⟨⟨t, hi, during, done⟩, each⟩⟩

namespace Server
open Backend

theorem fresh_follows {calls : List StoreCall}
    (sorted : (MemoryStore.machine.collect taken (fresh TimingWheel.default) calls).Pairwise (· ≤ ·)) :
    Follows (512 * (1 / 10)) calls (fresh TimingWheel.default) (fresh TimingWheel.default).expiring :=
  ⟨rfl, le_rfl, fun r _ => fresh_inTurn _ _ _ _ r, sorted⟩

theorem started_router (hash : String → Nat) (workerCount : Nat) (positive : 0 < workerCount) (file : List Char)
    (clocks snapshotClocks : Nat → Clock ℚ) :
    (started hash workerCount positive file clocks snapshotClocks).backend.runtime.router =
      (LiteStoreRuntime.create (τ := ℚ) workerCount positive file).router :=
  (LiteStoreRuntime.refresh_router _ snapshotClocks _ _).trans (LiteStoreRuntime.replay_router clocks _)

/-- **Deadlines over the wire.** In every run whose clock does not go back, on any log and over any connections:
after a `SET` and then an `EXPIRE` of a key, with no other write of it, a `GET` before the deadline answers the
value, and a `GET` that is a turn of the wheel behind the deadline answers nothing. -/
theorem deadline_read (hash : String → Nat) (rowHash : Nat → String → Nat) (workerCount : Nat)
    (positive : 0 < workerCount) (file : List Char) (clocks snapshotClocks : Nat → Clock ℚ)
    (events : List ServerEvent) {t : ℚ} (starts : StartsBy clocks snapshotClocks t)
    {before quiet between after : List Job} {write expire : Job} {j : Nat} {raw : List UInt8}
    {connectionId requestId : String} {clock : Clock ℚ} {append : LogOutcome} {durationSeconds : ℚ}
    {k v secondsRaw : String} {n : Int} {request expiry query : CommandRequest}
    (split : (started hash workerCount positive file clocks snapshotClocks).jobs hash rowHash events =
      before ++ write :: (quiet ++ expire :: (between ++
        .line j raw connectionId requestId clock append durationSeconds :: after)))
    (chronological : Chronological t
      ((started hash workerCount positive file clocks snapshotClocks).jobs hash rowHash events))
    (written : write.request = some request) (writes : request.Writes k (some v))
    (quietly : ∀ job ∈ quiet, job.Leaves k)
    (timed : expire.request = some expiry) (expires : expiry.command = .EXPIRE) (given : expiry.args = [k, secondsRaw])
    (seconds : parseTtlSeconds secondsRaw = some n) (ahead : 0 < n) (leave : ∀ job ∈ between, job.Leaves k)
    (accepted : (Job.line j raw connectionId requestId clock append durationSeconds).request = some query)
    (command : query.command = .GET) (args : query.args = [k]) :
    let start := started hash workerCount positive file clocks snapshotClocks
    let answer := (repliesTo hash rowHash j start.backend (start.jobs hash rowHash events))[
      (linesOf j (before ++ write :: (quiet ++ expire :: between))).length]?
    let deadline := expire.clock 2 + n
    (clock 1 < deadline → answer = some (valueResponse query (some v))) ∧
      (deadline + 512 * (1 / 10) ≤ clock 1 → answer = some (valueResponse query none)) := by
  intro start answer deadline
  have sound : start.backend.Sound rowHash := started_sound workerCount positive file clocks snapshotClocks
  obtain ⟨id, owns⟩ : ∃ id, start.backend.runtime.router.owner hash k = id := ⟨_, rfl⟩
  have known : id ∈ LiteStoreRuntime.workerNames workerCount := by
    rw [← owns, started_router]
    exact List.get_mem _ _
  obtain ⟨first, quietCalls, betweenCalls, more, runs, heard, quietly, leave, bounded⟩ :=
    timed_calls sound owns (startCalls hash workerCount positive file clocks snapshotClocks id) before quiet between
      after written writes.makes timed (CommandRequest.makes_expire expires given seconds) accepted
      (CommandRequest.makes_get command args) quietly leave
  -- The owner's store follows the specification.
  have sorted := runCalls_sorted hash rowHash workerCount positive file clocks snapshotClocks starts chronological id
  rw [runCalls, split, runs] at sorted
  obtain ⟨_, follows⟩ := (fresh_follows sorted).invariant (I := fun _ => True) le_rfl
    (fun _ _ _ _ _ _ _ => trivial) trivial
  obtain ⟨reads, readsNone⟩ := deadline_kept le_rfl follows ahead quietly leave
  -- What the read gets from that store is its answer, which has this place.
  have reaches := stored_by_calls hash rowHash workerCount positive file clocks snapshotClocks known
    (before ++ write :: (quiet ++ expire :: between))
  have parts : before ++ write :: (quiet ++ expire :: (between ++
      .line j raw connectionId requestId clock append durationSeconds :: after)) =
      (before ++ write :: (quiet ++ expire :: between)) ++
        .line j raw connectionId requestId clock append durationSeconds :: after := by
    simp only [List.append_assoc, List.cons_append]
  have answered {v? : Option String}
      (got : ((MemoryStore.machine.after (MemoryStore.machine.after (fresh TimingWheel.default) first)
        (⟨.set k v, write.clock.drop 1⟩ :: (quietCalls ++ ⟨.expire k n, expire.clock.drop 1⟩ :: betweenCalls))).perform
          ⟨.get k, clock.drop 1⟩).1 = .value v?) : answer = some (valueResponse query v?) := by
    have same := congrArg (DeterministicHashRouter.owner hash · k)
      (after_router hash sound (before ++ write :: (quiet ++ expire :: between)))
    rw [← Machine.after_append, ← heard] at got
    have step := get_answered (sound.after hash _).1 (same.trans owns) reaches accepted command args got
    simp only [answer]
    rw [split, parts, repliesTo_append, ← sound.length_repliesTo hash, List.getElem?_append_right le_rfl,
      Nat.sub_self, repliesTo, Machine.collect, replyTo, if_pos rfl, step]
    rfl
  constructor
  · intro soon
    refine answered (reads (fun c m => ?_) soon)
    -- The jobs between were over when the read began.
    rw [split, parts] at chronological
    obtain ⟨t', _, ⟨_, _, during, _⟩, each⟩ := chronological.split
    have order : clock 0 ≤ clock 1 := during.1 (Nat.zero_le 1)
    rcases bounded t' (fun job m => each job (by simp [m])) c m with ⟨start, later⟩ | rfl
    · have before : t' < deadline := ((during.2 0).1.trans order).trans_lt soon
      exact ⟨start.trans_lt before, fun _ i => (later i).trans_lt before⟩
    · exact ⟨order.trans_lt soon, fun reads => absurd rfl (reads none)⟩
  · intro late
    exact answered (readsNone late)

/-- One client sets a key, another gives it three seconds, and a third reads it before that. -/
def outlived : List ServerEvent :=
  [.connected none, .connected none, .connected none, .dataReceived 0 [83, 69, 84, 32, 107, 32, 118, 10],
   .dataReceived 1 [69, 88, 80, 73, 82, 69, 32, 107, 32, 51, 10], .dataReceived 2 [71, 69, 84, 32, 107, 10],
   .round 0 (Clock.still 0) .done 0, .round 1 (Clock.still 0) .done 0, .refresh fun _ => Clock.still 1,
   .round 2 (Clock.still 1) .done 0]

set_option maxRecDepth 8000 in
theorem outlived_jobs :
    (started Sha256.leading 2 Nat.two_pos [] (fun _ => Clock.still 0) fun _ => Clock.still 0).jobs Sha256.leading
        (fun _ _ => 0) outlived =
      [] ++ .line 0 [83, 69, 84, 32, 107, 32, 118, 10] (nextConnectionId none 1)
        (requestIdOf (nextConnectionId none 1) 1) (Clock.still 0) .done 0 ::
      ([] ++ .line 1 [69, 88, 80, 73, 82, 69, 32, 107, 32, 51, 10] (nextConnectionId none 2)
        (requestIdOf (nextConnectionId none 2) 1) (Clock.still 0) .done 0 ::
      ([.refresh fun _ => Clock.still 1] ++ .line 2 [71, 69, 84, 32, 107, 10] (nextConnectionId none 3)
        (requestIdOf (nextConnectionId none 3) 1) (Clock.still 1) .done 0 :: [])) := by
  rfl

theorem outlived_read :
    let start := started Sha256.leading 2 Nat.two_pos [] (fun _ => Clock.still 0) fun _ => Clock.still 0
    (repliesTo Sha256.leading (fun _ _ => 0) 2 start.backend
      (start.jobs Sha256.leading (fun _ _ => 0) outlived))[0]? =
      some (valueResponse ⟨.GET, ["k"], some "connection:3:1", some "connection:3"⟩ (some "v")) := by
  have set : (Job.line 0 [83, 69, 84, 32, 107, 32, 118, 10] (nextConnectionId none 1)
      (requestIdOf (nextConnectionId none 1) 1) (Clock.still 0) .done 0).request =
        some ⟨.SET, ["k", "v"], some "connection:1:1", some "connection:1"⟩ := by decide +kernel
  have expire : (Job.line 1 [69, 88, 80, 73, 82, 69, 32, 107, 32, 51, 10] (nextConnectionId none 2)
      (requestIdOf (nextConnectionId none 2) 1) (Clock.still 0) .done 0).request =
        some ⟨.EXPIRE, ["k", "3"], some "connection:2:1", some "connection:2"⟩ := by decide +kernel
  have get : (Job.line 2 [71, 69, 84, 32, 107, 10] (nextConnectionId none 3)
      (requestIdOf (nextConnectionId none 3) 1) (Clock.still 1) .done 0).request =
        some ⟨.GET, ["k"], some "connection:3:1", some "connection:3"⟩ := by decide +kernel
  have three : parseTtlSeconds "3" = some 3 := by decide +kernel
  have alone : ∀ job ∈ [Job.refresh fun _ => Clock.still 1], job.Leaves "k" :=
    List.forall_mem_singleton.mpr fun _ none => by cases none
  have zero : StartsBy (fun _ => Clock.still 0) (fun _ => Clock.still 0) 0 :=
    ⟨fun _ => monotone_const, fun _ _ _ => le_rfl, fun _ _ _ _ => le_rfl, fun _ _ => le_rfl⟩
  have during (i : Nat) (raw : List UInt8) (connectionId requestId : String) {t t' : ℚ} (le : t ≤ t') :
      (Job.line i raw connectionId requestId (Clock.still t') .done 0).During t t' :=
    ⟨monotone_const, fun _ => ⟨le, le_rfl⟩⟩
  have read := deadline_read Sha256.leading (fun _ _ => 0) 2 Nat.two_pos [] (fun _ => Clock.still 0)
    (fun _ => Clock.still 0) outlived zero outlived_jobs
    (by
      rw [outlived_jobs]
      exact ⟨0, le_rfl, during _ _ _ _ le_rfl, 0, le_rfl, during _ _ _ _ le_rfl, 1, by norm_num,
        fun _ _ => ⟨by norm_num, le_rfl⟩, 1, le_rfl, during _ _ _ _ le_rfl, trivial⟩)
    set (.inl ⟨"v", rfl, rfl, rfl⟩) (List.forall_mem_nil _) expire rfl rfl three (by decide) alone get rfl rfl
  exact read.1 (by norm_num : (1 : ℚ) < 0 + (3 : Int))

end Server
end LiteStore
